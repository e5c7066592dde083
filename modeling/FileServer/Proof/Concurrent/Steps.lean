import FileServer.Proof.Sequential.Rules
import FileServer.Model.Client

/-!
# What one operation changes

The records, the table, the owners of the mutexes and the counter of files, for any operation of any
worker.
-/

namespace FileServer
open Program

def Op.quiet : Op → Bool
  | .lock _ | .unlock _ | .store _ _ | .newFile _ | .free _ | .hashTbAdd _ | .hashTbSearch _ .del
  | .fileNIncrease _ | .fileNDecrease => false
  | _ => true

structure SameRecords {W : Type} (s s' : Server W) : Prop where
  files : s'.store.files = s.store.files
  next : s'.store.next = s.store.next
  table : s'.store.table = s.store.table
  fileN : s'.store.fileN = s.store.fileN
  owner : s'.owner = s.owner

inductive Performed {W : Type} (cfg : Config) (w : W) (s : Server W) :
    (o : Op) → o.Resp → Server W → Prop where
  | lock {m} (live : s.Live m) (free : s.owner m = none) :
      Performed cfg w s (.lock m) () (s.setOwner m (some w))
  | unlock {m} : Performed cfg w s (.unlock m) () (s.setOwner m none)
  | store {f field file} (found : s.store.files f = some file) :
      Performed cfg w s (.store f field) () (s.setFile f (some (file.write field)))
  | newFile {path} :
      Performed cfg w s (.newFile path) s.store.next (s.setStore { s.store with
        files := Function.update s.store.files s.store.next (some ⟨[], 0, path, 0, []⟩)
        next := s.store.next + 1 })
  | free {f file} (found : s.store.files f = some file) :
      Performed cfg w s (.free f) file (s.setFile f none)
  | hashTbAdd {f file} (found : s.store.files f = some file) :
      Performed cfg w s (.hashTbAdd f) () (s.setStore (s.store.hashTbAdd cfg f file))
  | hashTbSearch {str flag table} {x : Option FileId}
      (known : ∀ f, x = some f → f ∈ s.store.recorded)
      (length : table.length = s.store.table.length)
      (fewer : ({ s.store with table := table } : Store).recorded.Subperm s.store.recorded) :
      Performed cfg w s (.hashTbSearch str flag) x (s.setStore { s.store with table := table })
  | counted {max : Nat} (room : s.store.fileN < max) :
      Performed cfg w s (.fileNIncrease max) true
        (s.setStore { s.store with fileN := s.store.fileN + 1 })
  | full {max} : Performed cfg w s (.fileNIncrease max) false s
  | fileNDecrease :
      Performed cfg w s .fileNDecrease () (s.setStore { s.store with fileN := s.store.fileN - 1 })
  | quiet {o x s'} (quiet : o.quiet = true) (same : SameRecords s s') : Performed cfg w s o x s'

section
variable {W : Type} {cfg : Config} {w : W} {s s' : Server W} {f : FileId}

theorem SameRecords.recorded (same : SameRecords s s') : s'.store.recorded = s.store.recorded := by
  unfold Store.recorded
  rw [same.table]

theorem exec_quiet {o : Op} {x : o.Resp} (quiet : o.quiet = true)
    (step : Server.exec cfg w o s = .ok (x, s')) : SameRecords s s' := by
  cases o with
  | lock m => cases quiet
  | unlock m => cases quiet
  | store f field => cases quiet
  | newFile path => cases quiet
  | free f => cases quiet
  | hashTbAdd f => cases quiet
  | fileNIncrease max => cases quiet
  | fileNDecrease => cases quiet
  | abort e => cases step
  | spin => cases step
  | load f =>
      obtain ⟨file, -, same⟩ := Server.onFile_eq_ok.mp step
      cases same
      exact ⟨rfl, rfl, rfl, rfl, rfl⟩
  | hashTbSearch path flag =>
      cases flag with
      | del => cases quiet
      | src =>
          obtain ⟨name, -, step⟩ := Outcome.andThen_eq_ok.mp step
          cases name with
          | none =>
              cases step
              exact ⟨rfl, rfl, rfl, rfl, rfl⟩
          | some name =>
              obtain ⟨⟨f, σ⟩, searched, same⟩ := Outcome.andThen_eq_ok.mp step
              cases same
              cases Store.hashTbSearch_src_store searched
              exact ⟨rfl, rfl, rfl, rfl, rfl⟩
  | pageTake =>
      simp only [Server.exec] at step
      split at step <;> cases step <;> exact ⟨rfl, rfl, rfl, rfl, rfl⟩
  | pageAdd page =>
      cases step
      exact ⟨rfl, rfl, rfl, rfl, rfl⟩
  | memcpy page offset input size =>
      obtain ⟨s₁, copied, same⟩ := Outcome.andThen_eq_ok.mp step
      cases same
      simp only [Server.memcpy] at copied
      split at copied
      · cases copied
      · split at copied
        · cases copied
        · cases copied
          exact ⟨rfl, rfl, rfl, rfl, rfl⟩
  | memRead page size =>
      simp only [Server.exec] at step
      split at step
      · cases step
      · cases step
        exact ⟨rfl, rfl, rfl, rfl, rfl⟩
  | stackGetTop path =>
      obtain ⟨name, -, step⟩ := Outcome.andThen_eq_ok.mp step
      obtain ⟨⟨f, stack⟩, -, same⟩ := Outcome.andThen_eq_ok.mp step
      cases same
      exact ⟨rfl, rfl, rfl, rfl, rfl⟩
  | stackPush name =>
      obtain ⟨name, -, step⟩ := Outcome.andThen_eq_ok.mp step
      cases name with
      | none => cases step
      | some name =>
          obtain ⟨stack, -, same⟩ := Outcome.andThen_eq_ok.mp step
          cases same
          exact ⟨rfl, rfl, rfl, rfl, rfl⟩
  | stackCell i =>
      simp only [Server.exec] at step
      split at step
      · cases step
      · cases step
        exact ⟨rfl, rfl, rfl, rfl, rfl⟩
  | stackDedup i =>
      simp only [Server.exec] at step
      split at step
      · cases step
      · cases step
        exact ⟨rfl, rfl, rfl, rfl, rfl⟩
      · cases step
        exact ⟨rfl, rfl, rfl, rfl, rfl⟩
  | stackTop path | stackMax | stackMove last i | stackClear i | stackSetTop top | writeNB fd msg =>
      cases step
      exact ⟨rfl, rfl, rfl, rfl, rfl⟩

theorem exec_lock {m : Mutex} (step : Server.exec cfg w (.lock m) s = .ok ((), s')) :
    s.Live m ∧ s.owner m = none ∧ s' = s.setOwner m (some w) := by
  obtain ⟨live, step⟩ := Server.onMutex_eq_ok.mp step
  split at step
  · rename_i free
    cases step
    exact ⟨live, free, rfl⟩
  · cases step

theorem exec_unlock {m : Mutex} (step : Server.exec cfg w (.unlock m) s = .ok ((), s')) :
    s' = s.setOwner m none := by
  obtain ⟨-, step⟩ := Server.onMutex_eq_ok.mp step
  cases step
  rfl

theorem exec_store {field : FieldWrite}
    (step : Server.exec cfg w (.store f field) s = .ok ((), s')) :
    ∃ file, s.store.files f = some file ∧ s' = s.setFile f (some (file.write field)) := by
  obtain ⟨file, found, same⟩ := Server.onFile_eq_ok.mp step
  cases same
  exact ⟨file, found, rfl⟩

theorem exec_free {file : MemFile} (step : Server.exec cfg w (.free f) s = .ok (file, s')) :
    s.store.files f = some file ∧ s' = s.setFile f none := by
  obtain ⟨file', found, same⟩ := Server.onFile_eq_ok.mp step
  cases same
  exact ⟨found, rfl⟩

theorem exec_hashTbAdd (step : Server.exec cfg w (.hashTbAdd f) s = .ok ((), s')) :
    ∃ file, s.store.files f = some file ∧ s' = s.setStore (s.store.hashTbAdd cfg f file) := by
  obtain ⟨file, found, same⟩ := Server.onFile_eq_ok.mp step
  cases same
  exact ⟨file, found, rfl⟩

theorem exec_hashTbSearch {path : CStr} {flag : Flag} {x : Option FileId}
    (step : Server.exec cfg w (.hashTbSearch path flag) s = .ok (x, s')) :
    (∀ f, x = some f → f ∈ s.store.recorded) ∧ ∃ table,
      s' = s.setStore { s.store with table := table } ∧ table.length = s.store.table.length ∧
        (s'.store.recorded = s.store.recorded ∨
          ∃ f, x = some f ∧ flag = .del ∧ s.store.recorded.Perm (f :: s'.store.recorded)) := by
  obtain ⟨name, -, step⟩ := Outcome.andThen_eq_ok.mp step
  cases name with
  | none =>
      cases step
      exact ⟨nofun, s.store.table, rfl, rfl, .inl rfl⟩
  | some name =>
      obtain ⟨⟨found, σ⟩, searched, same⟩ := Outcome.andThen_eq_ok.mp step
      cases same
      cases x with
      | none =>
          cases (Store.hashTbSearch_none searched).1
          exact ⟨nofun, s.store.table, rfl, rfl, .inl rfl⟩
      | some f =>
          refine ⟨fun g same => ?_, ?_⟩
          · cases same
            exact Store.hashTbSearch_mem searched
          · cases flag with
            | src =>
                cases Store.hashTbSearch_src_store searched
                exact ⟨s.store.table, rfl, rfl, .inl rfl⟩
            | del =>
                have perm := Store.hashTbSearch_del_recorded searched
                obtain ⟨others, -, same⟩ := Store.hashTbSearch_some searched
                cases same
                exact ⟨_, rfl, List.length_set .., .inr ⟨f, rfl, rfl, perm⟩⟩

theorem exec_hashTbSearch_sub {path : CStr} {flag : Flag} {x : Option FileId}
    (step : Server.exec cfg w (.hashTbSearch path flag) s = .ok (x, s')) :
    s'.store.recorded.Subperm s.store.recorded := by
  obtain ⟨-, table, -, -, same | ⟨f, -, -, perm⟩⟩ := exec_hashTbSearch step
  · rw [same]
  · exact List.Subperm.cons_self.trans perm.symm.subperm

theorem performed {o : Op} {x : o.Resp} (step : Server.exec cfg w o s = .ok (x, s')) :
    Performed cfg w s o x s' := by
  cases o with
  | lock m =>
      obtain ⟨live, free, rfl⟩ := exec_lock step
      exact .lock live free
  | unlock m =>
      cases exec_unlock step
      exact .unlock
  | store f field =>
      obtain ⟨file, found, rfl⟩ := exec_store step
      exact .store found
  | newFile path =>
      cases step
      exact .newFile
  | free f =>
      obtain ⟨found, rfl⟩ := exec_free step
      exact .free found
  | hashTbAdd f =>
      obtain ⟨file, found, rfl⟩ := exec_hashTbAdd step
      exact .hashTbAdd found
  | hashTbSearch path flag =>
      have fewer := exec_hashTbSearch_sub step
      obtain ⟨known, table, rfl, length, -⟩ := exec_hashTbSearch step
      exact .hashTbSearch known length fewer
  | fileNIncrease max =>
      simp only [Server.exec] at step
      split at step
      · cases step
        exact .full
      · rename_i room
        cases step
        exact .counted (Int.not_le.mp room)
  | fileNDecrease =>
      cases step
      exact .fileNDecrease
  | _ => exact .quiet rfl (exec_quiet rfl step)

theorem exec_next {o : Op} {x : o.Resp} (step : Server.exec cfg w o s = .ok (x, s')) :
    s.store.next ≤ s'.store.next := by
  cases performed step with
  | newFile => exact Nat.le_succ _
  | quiet _ same => exact Nat.le_of_eq same.next.symm
  | _ => exact Nat.le_refl _

theorem exec_files {o : Op} {x : o.Resp} (step : Server.exec cfg w o s = .ok (x, s'))
    (dead : s'.store.files f = none) : s.store.files f = none ∨ o = .free f := by
  have kept {g : FileId} {file : MemFile}
      (dead : Function.update s.store.files g (some file) f = none) : s.store.files f = none := by
    by_cases same : f = g
    · subst same
      rw [Function.update_self] at dead
      cases dead
    · rwa [Function.update_of_ne same] at dead
  cases performed step with
  | store found => exact .inl (kept dead)
  | newFile => exact .inl (kept dead)
  | @free g file found =>
      by_cases same : f = g
      · exact .inr (congrArg Op.free same.symm)
      · exact .inl ((Function.update_of_ne same ..).symm.trans dead)
  | quiet _ same =>
      rw [same.files] at dead
      exact .inl dead
  | _ => exact .inl dead

theorem exec_recorded_sub {o : Op} {x : o.Resp} (notAdded : ∀ f, o ≠ .hashTbAdd f)
    (step : Server.exec cfg w o s = .ok (x, s')) :
    s'.store.recorded.Subperm s.store.recorded := by
  cases performed step with
  | hashTbAdd found => exact (notAdded _ rfl).elim
  | hashTbSearch known length fewer => exact fewer
  | quiet _ same => rw [same.recorded]
  | _ => exact List.Subperm.refl _

theorem exec_owner {o : Op} {x : o.Resp} (lock : ∀ m, o ≠ .lock m) (unlock : ∀ m, o ≠ .unlock m)
    (step : Server.exec cfg w o s = .ok (x, s')) : s'.owner = s.owner := by
  cases performed step with
  | lock live free => exact (lock _ rfl).elim
  | unlock => exact (unlock _ rfl).elim
  | quiet _ same => exact same.owner
  | _ => rfl

end

end FileServer
