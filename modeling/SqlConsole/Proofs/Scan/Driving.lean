import SqlConsole.Proofs.Scan.Cursor

/-! Driving a scanner. Its clients may ask it to scan, and look at its tokens and faults, as often
and in whatever order they like. It shows nothing until it is first asked to scan, and from then on
it shows the scan of its text. -/
namespace SqlConsole

/-- What a scanner can be asked for while it is kept. -/
inductive Call where
  | scan | tokens | faults | hasFaults
  deriving DecidableEq

inductive Answer where
  | tokens (shown : List Token)
  | faults (shown : List ScanFault)
  | hasFaults (shown : Bool)

/-- How the output answers a call. -/
def ScanOutput.answer (output : ScanOutput) : Call → Answer
  | .scan | .tokens => .tokens output.tokens
  | .faults => .faults output.faults
  | .hasFaults => .hasFaults (output.faults ≠ [])

namespace Scanner

def call (s : Scanner) : Call → Answer × Scanner
  | .scan => (.tokens s.run.tokens, s.run)
  | .tokens => (.tokens s.tokens, s)
  | .faults => (.faults s.faults, s)
  | .hasFaults => (.hasFaults s.hasFaults, s)

/-- The answers to the calls, one after the other, and the scanner behind them. -/
def drive (s : Scanner) : List Call → List Answer × Scanner
  | [] => ([], s)
  | call :: calls =>
    let behind := (s.call call).2.drive calls
    ((s.call call).1 :: behind.1, behind.2)

variable {s : Scanner}

theorem hasFaults_eq (s : Scanner) : s.hasFaults = decide (s.faults ≠ []) := by
  unfold hasFaults
  cases s.faults <;> rfl

/-! ## Behind the first scan -/

theorem finished_run (s : Scanner) : s.run.finished = true := by
  unfold run
  split
  next done => exact done
  next => rfl

theorem run_of_finished (done : s.finished = true) : s.run = s := if_pos done

theorem finish_run (s : Scanner) : s.run.finish = s.finish := by
  rw [finish, run_of_finished s.finished_run, finish]

/-- A scanner that has scanned does not change any more. -/
theorem call_of_finished (done : s.finished = true) (call : Call) :
    s.call call = (s.finish.answer call, s) := by
  rw [finish, run_of_finished done]
  cases call with
  | scan => simp only [Scanner.call, run_of_finished done, ScanOutput.answer]
  | tokens | faults => rfl
  | hasFaults => simp only [Scanner.call, hasFaults_eq, ScanOutput.answer]

theorem drive_of_finished (done : s.finished = true) (calls : List Call) :
    s.drive calls = (calls.map s.finish.answer, s) := by
  induction calls with
  | nil => rfl
  | cons call calls ih =>
    rw [drive, call_of_finished done, ih]
    rfl

/-! ## From the beginning -/

theorem finish_new (source : String) : (new source).finish = scan source := by
  obtain ⟨position, tokens, faults⟩ := scanTokens_eq (new source)
  have fresh : (new source).run = { (new source).scanTokens.addToken
      (endToken (new source).scanTokens.position) with finished := true } := rfl
  rw [finish, fresh, addToken, position, tokens, faults]
  rfl

/-- Looking at a scanner that has not scanned shows nothing and changes nothing. -/
theorem call_new (source : String) {call : Call} (look : call ≠ .scan) :
    (new source).call call = (ScanOutput.answer ⟨[], []⟩ call, new source) := by
  cases call with
  | scan => exact absurd rfl look
  | tokens | faults | hasFaults => rfl

/-- Up to the first call that scans, the answers to a new scanner's calls show no tokens and no
faults; from this call on they show those of the scan of the source. The output in the end is this
scan, whatever has been called before and whether or not a call has scanned. -/
theorem drive_new (source : String) (calls : List Call) :
    ((new source).drive calls).1 =
      (calls.takeWhile (· ≠ .scan)).map (ScanOutput.answer ⟨[], []⟩) ++
        (calls.dropWhile (· ≠ .scan)).map (scan source).answer ∧
    ((new source).drive calls).2.finish = scan source := by
  induction calls with
  | nil => exact ⟨rfl, finish_new source⟩
  | cons call calls ih =>
    by_cases look : call = .scan
    · subst look
      have last : (new source).run.finish = scan source := (finish_run _).trans (finish_new source)
      have shown : (new source).run.tokens = (scan source).tokens :=
        congrArg ScanOutput.tokens (finish_new source)
      have behind := drive_of_finished (finished_run (new source)) calls
      rw [List.takeWhile_cons_of_neg (by simp), List.dropWhile_cons_of_neg (by simp), drive,
        Scanner.call, behind, last, shown]
      exact ⟨rfl, rfl⟩
    · rw [List.takeWhile_cons_of_pos (by simpa using look),
        List.dropWhile_cons_of_pos (by simpa using look), drive, call_new source look]
      exact ⟨congrArg _ ih.1, ih.2⟩

end Scanner

end SqlConsole
