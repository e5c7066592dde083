import FileServer.Model.Store
import Mathlib.Data.List.Perm.Basic
import Mathlib.Data.List.Nodup

namespace FileServer

/-! ## Tables as lists of buckets -/

theorem flatten_set_perm {α : Type} (table : List (List α)) (i : Nat) (bucket : List α)
    (inside : i < table.length) :
    ((table.set i bucket).flatten ++ table.getD i []).Perm (table.flatten ++ bucket) := by
  induction table generalizing i with
  | nil => simp at inside
  | cons head tail ih =>
      cases i with
      | zero =>
          simp only [List.set_cons_zero, List.flatten_cons, List.getD_cons_zero]
          calc bucket ++ tail.flatten ++ head
              _ |>.Perm (head ++ (bucket ++ tail.flatten)) := List.perm_append_comm
              _ |>.Perm (head ++ (tail.flatten ++ bucket)) := List.perm_append_comm.append_left head
              _ = head ++ tail.flatten ++ bucket := (List.append_assoc ..).symm
      | succ i =>
          have rest := ih i (by simpa using inside)
          simpa [List.append_assoc] using rest.append_left head

theorem getD_mem_flatten {α : Type} {table : List (List α)} {i : Nat} {x : α}
    (mem : x ∈ table.getD i []) : x ∈ table.flatten := by
  rw [List.mem_flatten]
  by_cases inside : i < table.length
  · refine ⟨table[i], List.getElem_mem inside, ?_⟩
    simpa [List.getD, inside] using mem
  · simp [List.getD, Nat.not_lt.mp inside] at mem

/-! ## `searchBucket` -/

theorem strncmpEq_iff {s t : Path} :
    strncmpEq s t = true ↔ s.take posixPathMax = t.take posixPathMax := by
  simp [strncmpEq]

theorem searchBucket_congr {key key' : Nat} {path path' : Path} (sameKey : key = key')
    (samePath : path.take posixPathMax = path'.take posixPathMax)
    (files : FileId → Option MemFile) (bucket : List HashEntry) :
    searchBucket files key path bucket = searchBucket files key' path' bucket := by
  subst sameKey
  induction bucket with
  | nil => rfl
  | cons entry rest ih =>
      have sameTest (t : Path) : strncmpEq path t = strncmpEq path' t := by
        simp [strncmpEq, samePath]
      simp only [searchBucket, ih, sameTest]

theorem searchBucket_paths {files files' : FileId → Option MemFile}
    (same : ∀ f, (files' f).map MemFile.abspath = (files f).map MemFile.abspath) (key : Nat) (path : Path)
    (bucket : List HashEntry) :
    searchBucket files' key path bucket = searchBucket files key path bucket := by
  induction bucket with
  | nil => rfl
  | cons entry rest ih =>
      have here := same entry.data
      simp only [searchBucket, ih]
      cases found : files entry.data with
      | none =>
          rw [found, Option.map_none, Option.map_eq_none_iff] at here
          rw [here]
      | some file =>
          rw [found, Option.map_some, Option.map_eq_some_iff] at here
          obtain ⟨file', found', path'⟩ := here
          simp only [found', path']

theorem searchBucket_some {files : FileId → Option MemFile} {key : Nat} {path : Path}
    {bucket others : List HashEntry} {f : FileId}
    (found : searchBucket files key path bucket = .ok (some (f, others))) :
    ∃ before after file, bucket = before ++ ⟨f, key⟩ :: after ∧ others = before ++ after ∧
      files f = some file ∧ strncmpEq path file.abspath = true := by
  induction bucket generalizing others with
  | nil => simp [searchBucket] at found
  | cons entry rest ih =>
      have onward (h : (searchBucket files key path rest).andThen (fun found =>
          .ok (found.map fun pair => (pair.1, entry :: pair.2))) = .ok (some (f, others))) :
          ∃ before after file, entry :: rest = before ++ ⟨f, key⟩ :: after ∧
            others = before ++ after ∧ files f = some file ∧
            strncmpEq path file.abspath = true := by
        obtain ⟨result, searched, mapped⟩ := Outcome.andThen_eq_ok.mp h
        cases result with
        | none => simp at mapped
        | some pair =>
            obtain ⟨g, left⟩ := pair
            simp only [Option.map_some, Outcome.ok.injEq, Option.some.injEq, Prod.mk.injEq] at mapped
            obtain ⟨rfl, rfl⟩ := mapped
            obtain ⟨before, after, file, rfl, rfl, alive, same⟩ := ih searched
            exact ⟨entry :: before, after, file, rfl, rfl, alive, same⟩
      simp only [searchBucket] at found
      split at found
      · rename_i sameKey
        split at found
        · cases found
        · rename_i file alive
          split at found
          · rename_i same
            simp only [Outcome.ok.injEq, Option.some.injEq, Prod.mk.injEq] at found
            obtain ⟨rfl, rfl⟩ := found
            exact ⟨[], rest, file, by rw [sameKey]; rfl, rfl, alive, same⟩
          · exact onward found
      · exact onward found

theorem searchBucket_ok {files : FileId → Option MemFile} {bucket : List HashEntry}
    (alive : ∀ entry ∈ bucket, files entry.data ≠ none) (key : Nat) (path : Path) :
    ∃ result, searchBucket files key path bucket = .ok result := by
  induction bucket with
  | nil => exact ⟨none, rfl⟩
  | cons entry rest ih =>
      obtain ⟨result, searched⟩ := ih fun e mem => alive e (List.mem_cons_of_mem _ mem)
      obtain ⟨file, found⟩ := Option.ne_none_iff_exists'.mp (alive entry List.mem_cons_self)
      simp only [searchBucket, searched, found, Outcome.andThen_ok]
      split
      · split <;> exact ⟨_, rfl⟩
      · exact ⟨_, rfl⟩

theorem searchBucket_fault {files : FileId → Option MemFile} {key : Nat} {path : Path}
    {bucket : List HashEntry} {e : Fault} (failed : searchBucket files key path bucket = .fault e) :
    ∃ entry ∈ bucket, files entry.data = none ∧ e = .deadFile entry.data := by
  induction bucket with
  | nil => simp [searchBucket] at failed
  | cons entry rest ih =>
      have onward (h : (searchBucket files key path rest).andThen (fun found =>
          .ok (found.map fun pair => (pair.1, entry :: pair.2))) = .fault e) :
          ∃ entry' ∈ entry :: rest, files entry'.data = none ∧ e = .deadFile entry'.data := by
        rcases Outcome.andThen_eq_fault.mp h with failed | ⟨_, -, wrong⟩
        · obtain ⟨entry', mem, dead⟩ := ih failed
          exact ⟨entry', List.mem_cons_of_mem _ mem, dead⟩
        · cases wrong
      simp only [searchBucket] at failed
      split at failed
      · split at failed
        · rename_i dead
          cases failed
          exact ⟨entry, List.mem_cons_self, dead, rfl⟩
        · split at failed
          · cases failed
          · exact onward failed
      · exact onward failed

/-! ## `hashTbSearch` and `hashTbAdd` -/

namespace Store
variable {cfg : Config} {σ σ' : Store} {path : Path} {flag : Flag} {f : FileId}

theorem hashTbSearch_none (missing : σ.hashTbSearch cfg path flag = .ok (none, σ')) :
    σ' = σ ∧ searchBucket σ.files (hashKey path) path (σ.table.getD (hashTbPos cfg path) []) =
      .ok none := by
  obtain ⟨result, searched, rest⟩ := Outcome.andThen_eq_ok.mp missing
  cases result with
  | none =>
      simp only [Outcome.ok.injEq, Prod.mk.injEq, true_and] at rest
      exact ⟨rest.symm, searched⟩
  | some pair => cases flag <;> simp at rest

theorem hashTbSearch_some (found : σ.hashTbSearch cfg path flag = .ok (some f, σ')) :
    ∃ others, searchBucket σ.files (hashKey path) path
        (σ.table.getD (hashTbPos cfg path) []) = .ok (some (f, others)) ∧
      σ' = if flag = .del then { σ with table := σ.table.set (hashTbPos cfg path) others } else σ := by
  obtain ⟨result, searched, rest⟩ := Outcome.andThen_eq_ok.mp found
  cases result with
  | none => simp at rest
  | some pair =>
      obtain ⟨g, others⟩ := pair
      cases flag <;> simp only [Outcome.ok.injEq, Prod.mk.injEq, Option.some.injEq] at rest <;>
        obtain ⟨rfl, rfl⟩ := rest <;> exact ⟨others, searched, rfl⟩

theorem hashTbSearch_src_store {result : Option FileId}
    (searched : σ.hashTbSearch cfg path .src = .ok (result, σ')) : σ' = σ := by
  cases result with
  | none => exact (hashTbSearch_none searched).1
  | some f => exact (hashTbSearch_some searched).choose_spec.2

theorem hashTbSearch_del_iff {result : Option FileId} :
    (∃ σ', σ.hashTbSearch cfg path .del = .ok (result, σ')) ↔
      σ.hashTbSearch cfg path .src = .ok (result, σ) := by
  dsimp only [hashTbSearch]
  cases searchBucket σ.files (hashKey path) path (σ.table.getD (hashTbPos cfg path) []) with
  | ok r => cases r <;> simp
  | _ => simp

theorem hashTbSearch_fault {e : Fault} (failed : σ.hashTbSearch cfg path flag = .fault e) :
    ∃ f ∈ σ.recorded, σ.files f = none ∧ e = .deadFile f := by
  rcases Outcome.andThen_eq_fault.mp failed with failed | ⟨result, -, wrong⟩
  · obtain ⟨entry, mem, dead, same⟩ := searchBucket_fault failed
    exact ⟨entry.data, List.mem_map.mpr ⟨entry, getD_mem_flatten mem, rfl⟩, dead, same⟩
  · cases result with
    | none => cases wrong
    | some pair => cases flag <;> cases wrong

theorem hashTbSearch_mem (found : σ.hashTbSearch cfg path flag = .ok (some f, σ')) :
    f ∈ σ.recorded := by
  obtain ⟨others, searched, -⟩ := hashTbSearch_some found
  obtain ⟨before, after, file, split, -⟩ := searchBucket_some searched
  have mem : (⟨f, hashKey path⟩ : HashEntry) ∈ σ.table.getD (hashTbPos cfg path) [] := by
    rw [split]; simp
  exact List.mem_map.mpr ⟨_, getD_mem_flatten mem, rfl⟩

theorem hashTbSearch_alive (found : σ.hashTbSearch cfg path flag = .ok (some f, σ')) :
    ∃ file, σ.files f = some file ∧ strncmpEq path file.abspath = true := by
  obtain ⟨others, searched, -⟩ := hashTbSearch_some found
  obtain ⟨before, after, file, -, -, alive, same⟩ := searchBucket_some searched
  exact ⟨file, alive, same⟩

theorem hashTbSearch_congr {path' : Path} (sameKey : hashKey path = hashKey path')
    (samePath : path.take posixPathMax = path'.take posixPathMax) :
    σ.hashTbSearch cfg path flag = σ.hashTbSearch cfg path' flag := by
  simp only [hashTbSearch, hashTbPos, sameKey, searchBucket_congr rfl samePath]

theorem inside_of_found {others : List HashEntry}
    (searched : searchBucket σ.files (hashKey path) path (σ.table.getD (hashTbPos cfg path) []) =
      .ok (some (f, others))) : hashTbPos cfg path < σ.table.length := by
  by_contra outside
  simp [List.getD, Nat.not_lt.mp outside, searchBucket] at searched

theorem hashTbSearch_del_perm (found : σ.hashTbSearch cfg path .del = .ok (some f, σ')) :
    σ.table.flatten.Perm (⟨f, hashKey path⟩ :: σ'.table.flatten) := by
  obtain ⟨others, searched, removed⟩ := hashTbSearch_some found
  rw [if_pos rfl] at removed
  subst removed
  obtain ⟨before, after, file, split, rfl, -⟩ := searchBucket_some searched
  have exchange := flatten_set_perm σ.table (hashTbPos cfg path) (before ++ after)
    (inside_of_found searched)
  rw [split] at exchange
  have moved : (before ++ (⟨f, hashKey path⟩ : HashEntry) :: after).Perm
      ((⟨f, hashKey path⟩ : HashEntry) :: (before ++ after)) := List.perm_middle
  have cancelled : (⟨f, hashKey path⟩ :: (σ.table.set (hashTbPos cfg path)
      (before ++ after)).flatten ++ (before ++ after)).Perm
        (σ.table.flatten ++ (before ++ after)) := by
    refine List.Perm.trans ?_ exchange
    exact List.perm_middle.symm.trans (moved.symm.append_left _)
  exact ((List.perm_append_right_iff _).mp cancelled).symm

theorem hashTbSearch_del_recorded (found : σ.hashTbSearch cfg path .del = .ok (some f, σ')) :
    σ.recorded.Perm (f :: σ'.recorded) :=
  (hashTbSearch_del_perm found).map HashEntry.data

theorem hashTbAdd_recorded (file : MemFile) (f : FileId)
    (inside : hashTbPos cfg file.abspath < σ.table.length) :
    (σ.hashTbAdd cfg f file).recorded.Perm (f :: σ.recorded) := by
  have exchange := flatten_set_perm σ.table (hashTbPos cfg file.abspath)
    (⟨f, hashKey file.abspath⟩ :: σ.table.getD (hashTbPos cfg file.abspath) []) inside
  have moved : (σ.hashTbAdd cfg f file).table.flatten.Perm
      (⟨f, hashKey file.abspath⟩ :: σ.table.flatten) := by
    refine (List.perm_append_right_iff (σ.table.getD (hashTbPos cfg file.abspath) [])).mp ?_
    exact exchange.trans List.perm_middle
  exact moved.map HashEntry.data

end Store

/-! ## Scans of the stack -/

namespace FileStack
variable {search : Path → Outcome Fault (Option FileId)} {e : Fault}

theorem scanDown_fault {stack : List (Option Path)} {n : Nat}
    (failed : scanDown search stack n = .fault e) :
    e = .stackIndex ∨ ∃ name, search name = .fault e := by
  induction n with
  | zero =>
      cases failed
      exact .inl rfl
  | succ n ih =>
      simp only [scanDown] at failed
      split at failed
      · cases failed
        exact .inl rfl
      · exact ih failed
      · rename_i name _
        rcases Outcome.andThen_eq_fault.mp failed with failed | ⟨result, -, failed⟩
        · exact .inr ⟨name, failed⟩
        · cases result with
          | none => exact ih failed
          | some f => cases failed

theorem getTop_fault {stack : FileStack} {path : Option Path}
    (failed : stack.getTop search path = .fault e) :
    e = .stackIndex ∨ e = .nullString ∨ ∃ name, search name = .fault e := by
  have scan (n : Nat) (upd : Nat × FileId → FileId × FileStack)
      (h : (scanDown search stack.stack n).andThen (fun p => .ok (upd p)) = .fault e) :
      e = .stackIndex ∨ e = .nullString ∨ ∃ name, search name = .fault e := by
    rcases Outcome.andThen_eq_fault.mp h with h | ⟨_, -, wrong⟩
    · rcases scanDown_fault h with h | h
      · exact .inl h
      · exact .inr (.inr h)
    · cases wrong
  cases path with
  | none => exact scan _ (fun p =>
      (p.2, { stack with top := p.1, stack := stack.stack.set p.1 none })) failed
  | some path =>
      simp only [getTop] at failed
      split at failed
      · cases failed
        exact .inl rfl
      · cases failed
        exact .inr (.inl rfl)
      · split at failed
        · exact scan _ (fun p =>
            (p.2, { stack with stack := stack.stack.set p.1 none })) failed
        · exact scan _ (fun p =>
            (p.2, { stack with top := p.1, stack := stack.stack.set p.1 none })) failed

end FileStack

end FileServer
