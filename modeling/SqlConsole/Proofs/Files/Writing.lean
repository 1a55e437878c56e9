import SqlConsole.Files.Tree

/-! Writing a file into a tree and reading it again. Where a file can be written does not depend
on what it holds, and reading it gives what has been written. -/
namespace SqlConsole

namespace FileNode

/-- Some file can be written at the path. -/
def Accepts (root : FileNode) (path : String) : Prop :=
  ∃ contents after, root.write path contents = .ok after

theorem find?_map_replace {entries : List (String × FileNode)} {name : String} {old : FileNode}
    (node : FileNode) (found : child? entries name = some old) :
    child? (entries.map fun e => if e.1 = name then (name, node) else e) name = some node := by
  induction entries with
  | nil => cases found
  | cons e entries ih =>
    by_cases same : e.1 = name
    · simp [child?, same]
    · have later : child? entries name = some old := by simpa [child?, same] using found
      have rest := ih later
      simpa [child?, same] using rest

theorem child?_setEntry (entries : List (String × FileNode)) (name : String) (node : FileNode) :
    child? (setEntry entries name node) name = some node := by
  unfold setEntry
  split
  next there =>
    obtain ⟨old, found⟩ := Option.isSome_iff_exists.mp there
    exact find?_map_replace node found
  next missing =>
    have none : entries.find? (fun e => e.1 = name) = none :=
      Option.map_eq_none_iff.mp (Option.not_isSome_iff_eq_none.mp missing)
    simp [child?, List.find?_append, none]

theorem walk_put {node : FileNode} {names : List String} {root after : FileNode}
    (done : put node names root = .ok after) : walk names after = .ok node := by
  fun_induction put node names root generalizing after with
  | case1 | case2 | case3 | case5 => cases done
  | case4 name entries =>
    cases done
    simp [walk, child?_setEntry]
  | case6 name next rest entries inner found ih =>
    cases changed : put node (next :: rest) inner with
    | error cause => rw [changed] at done; cases done
    | ok replaced =>
      rw [changed] at done
      cases done
      rw [walk, child?_setEntry]
      exact ih changed

/-- Whether a node can be put under a path does not depend on the node. -/
theorem put_accepts {node : FileNode} {names : List String} {root after : FileNode}
    (done : put node names root = .ok after) (other : FileNode) :
    ∃ after', put other names root = .ok after' := by
  fun_induction put node names root generalizing after with
  | case1 | case2 | case3 | case5 => cases done
  | case4 name entries free =>
    unfold put
    split
    next folder there => exact (free folder there).elim
    next => exact ⟨_, rfl⟩
  | case6 name next rest entries inner found ih =>
    cases changed : put node (next :: rest) inner with
    | error cause => rw [changed] at done; cases done
    | ok replaced =>
      obtain ⟨replaced', again⟩ := ih changed
      rw [put, found]
      simp only [again]
      exact ⟨_, rfl⟩

/-- What has to be so for a file to be written. -/
theorem put_of_write {root after : FileNode} {path : String} {contents : Bytes}
    (written : root.write path contents = .ok after) :
    rejects path = none ∧ wantsFolder path = false ∧ isAbsolute path = false ∧
      put (.file contents) (steps path) root = .ok after := by
  unfold write at written
  split at written
  next => cases written
  next accepted =>
    split at written
    next => split at written <;> cases written
    next file =>
      split at written
      next => cases written
      next inside => exact ⟨accepted, by simpa using file, by simpa using inside, written⟩

theorem read_write {root after : FileNode} {path : String} {contents : Bytes}
    (written : root.write path contents = .ok after) : after.read path = .ok contents := by
  obtain ⟨accepted, file, inside, done⟩ := put_of_write written
  have found : after.find path = .ok (.file contents) := by
    simp only [find, accepted, file, inside, Bool.false_eq_true, if_false, walk_put done]
    rfl
  rw [read, found]
  rfl

/-- Where a file can be written, any contents can be. -/
theorem Accepts.write {root : FileNode} {path : String} (accepts : root.Accepts path)
    (contents : Bytes) : ∃ after, root.write path contents = .ok after := by
  obtain ⟨_, _, written⟩ := accepts
  obtain ⟨accepted, file, inside, done⟩ := put_of_write written
  obtain ⟨after, again⟩ := put_accepts done (.file contents)
  refine ⟨after, ?_⟩
  simp [FileNode.write, accepted, file, inside, again]

end FileNode

end SqlConsole
