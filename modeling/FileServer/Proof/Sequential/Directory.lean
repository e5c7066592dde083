import FileServer.Proof.Sequential.Defrag
import Mathlib.Data.List.GetD

/-!
# The names of a store

The records of a store as a directory: what a name leads to, and what it leads to once a record is gone.
-/

namespace FileServer
open Program

/-- Every record is in the table once, and none of them was freed. -/
structure Store.Tidy (σ : Store) : Prop where
  nodup : σ.recorded.Nodup
  alive : ∀ f ∈ σ.recorded, σ.files f ≠ none

/-- The walk of `hashTbSearch` for `name` stops at this cell. -/
def Store.stopsAt (σ : Store) (name : Path) (entry : HashEntry) : Bool :=
  hashKey name == entry.key && (σ.files entry.data).any fun file => strncmpEq name file.abspath

/-- The record that a name leads to. -/
def Store.leads (cfg : Config) (σ : Store) (name : Path) : Option FileId :=
  ((σ.table.getD (Store.hashTbPos cfg name) []).find? (σ.stopsAt name)).map HashEntry.data

def Store.without (σ : Store) (f : FileId) : Store :=
  { σ with
    table := σ.table.map fun bucket => bucket.filter fun entry => entry.data != f
    files := Function.update σ.files f none }

/-- The string that an argument of `fileDeleteFIFO` points to, or that it is `NULL`. -/
def Store.string (σ : Store) : CStr → Option (Option Path)
  | .null => some none
  | .buf path => some (some path)
  | .copy path => if path.length < posixPathMax then some (some path) else none
  | .abspath f => (σ.files f).map fun file => some file.abspath

section
variable {W : Type} {cfg : Config} {σ σ' : Store} {name : Path} {f g : FileId}

theorem Consistent.tidy {busy : Option FileId} {extra : List Nat} (consistent : Consistent cfg busy extra σ) :
    σ.Tidy := by
  refine ⟨consistent.nodup, fun f mem => ?_⟩
  obtain ⟨file, found⟩ := consistent.alive mem
  rw [found]
  nofun

theorem searchBucket_eq_find (bucket : List HashEntry) (alive : ∀ entry ∈ bucket, σ.files entry.data ≠ none) :
    (searchBucket σ.files (hashKey name) name bucket).andThen (fun found => .ok (found.map Prod.fst)) =
      .ok ((bucket.find? (σ.stopsAt name)).map HashEntry.data) := by
  induction bucket with
  | nil => rfl
  | cons entry rest ih =>
      have below := ih fun other mem => alive other (List.mem_cons_of_mem entry mem)
      have onward : ((searchBucket σ.files (hashKey name) name rest).andThen fun found =>
          .ok (found.map fun pair => (pair.1, entry :: pair.2))).andThen
            (fun found => .ok (found.map Prod.fst)) =
          (Outcome.ok ((rest.find? (σ.stopsAt name)).map HashEntry.data) : Outcome Fault (Option FileId)) := by
        rw [← below, Outcome.andThen_assoc]
        congr 1
        funext found
        cases found <;> rfl
      obtain ⟨file, found⟩ := Option.ne_none_iff_exists'.mp (alive entry List.mem_cons_self)
      simp only [searchBucket, List.find?_cons]
      by_cases key : hashKey name = entry.key
      · cases same : strncmpEq name file.abspath with
        | true =>
            have stops : σ.stopsAt name entry = true := by simp [Store.stopsAt, key, found, same]
            simp [stops, key, found, same]
        | false =>
            have passes : σ.stopsAt name entry = false := by simp [Store.stopsAt, found, same]
            simpa [passes, key, found, same] using onward
      · have passes : σ.stopsAt name entry = false := by simp [Store.stopsAt, key]
        simpa [passes, key] using onward

namespace Store

theorem Tidy.lookup (tidy : σ.Tidy) (name : Path) : σ.lookup cfg name = .ok (σ.leads cfg name) := by
  have alive : ∀ entry ∈ σ.table.getD (Store.hashTbPos cfg name) [], σ.files entry.data ≠ none :=
    fun entry mem => tidy.alive entry.data (Store.mem_recorded.mpr ⟨_, entry, mem, rfl⟩)
  rw [leads, ← searchBucket_eq_find _ alive, Store.lookup, Store.hashTbSearch, Outcome.andThen_assoc]
  congr 1
  funext found
  cases found <;> rfl

theorem Tidy.leads_iff (tidy : σ.Tidy) : σ.leads cfg name = some f ↔ σ.lookup cfg name = .ok (some f) := by
  simp [tidy.lookup name]

theorem Tidy.knows (tidy : σ.Tidy) (name : Path) : σ.knows cfg name = (σ.leads cfg name).isSome := by
  simp [Store.knows, tidy.lookup name, Outcome.okAnd]

/-! ## Without a record -/

theorem recorded_without (σ : Store) (f : FileId) :
    (σ.without f).recorded = σ.recorded.filter fun g => g != f := by
  unfold recorded without
  rw [← List.filter_flatten, List.filter_map]
  rfl

theorem Tidy.without (tidy : σ.Tidy) (f : FileId) : (σ.without f).Tidy := by
  have recorded := recorded_without σ f
  refine ⟨?_, fun g mem => ?_⟩
  · rw [recorded]
    exact tidy.nodup.filter _
  · rw [recorded] at mem
    have other : g ≠ f := by simpa using List.of_mem_filter mem
    show Function.update σ.files f none g ≠ none
    rw [Function.update_of_ne other]
    exact tidy.alive g (List.mem_of_mem_filter mem)

theorem leads_without (σ : Store) (f : FileId) (name : Path) :
    (σ.without f).leads cfg name = ((σ.table.getD (hashTbPos cfg name) []).find? fun entry =>
      entry.data != f && σ.stopsAt name entry).map HashEntry.data := by
  have bucket : (σ.without f).table.getD (hashTbPos cfg name) [] =
      (σ.table.getD (hashTbPos cfg name) []).filter fun entry => entry.data != f :=
    List.getD_map σ.table [] (List.filter fun entry => entry.data != f)
  have stops (entry : HashEntry) :
      decide ((entry.data != f) = true ∧ (σ.without f).stopsAt name entry = true) =
        (entry.data != f && σ.stopsAt name entry) := by
    by_cases here : entry.data = f
    · simp [here]
    · have files : (σ.without f).files entry.data = σ.files entry.data := Function.update_of_ne here ..
      have same : (σ.without f).stopsAt name entry = σ.stopsAt name entry := by
        unfold stopsAt
        rw [files]
      rw [same, Bool.decide_and, Bool.decide_eq_true, Bool.decide_eq_true]
  rw [leads, bucket, List.find?_filter]
  exact congrArg (fun test => (List.find? test _).map HashEntry.data) (funext stops)

theorem leads_without_none (missing : σ.leads cfg name = none) (f : FileId) :
    (σ.without f).leads cfg name = none := by
  rw [leads, Option.map_eq_none_iff, List.find?_eq_none] at missing
  rw [leads_without, Option.map_eq_none_iff, List.find?_eq_none]
  intro entry mem
  simp [missing entry mem]

theorem leads_without_ne (found : σ.leads cfg name = some g) (other : g ≠ f) :
    (σ.without f).leads cfg name = some g := by
  obtain ⟨entry, found, same⟩ := Option.map_eq_some_iff.mp found
  obtain ⟨stops, before, after, split, passed⟩ := List.find?_eq_some_iff_append.mp found
  rw [leads_without, Option.map_eq_some_iff]
  refine ⟨entry, List.find?_eq_some_iff_append.mpr ⟨?_, before, after, split, fun skipped mem => ?_⟩, same⟩
  · simp [stops, same, other]
  · have passes := passed skipped mem
    simp only [Bool.not_eq_true'] at passes
    simp [passes]

theorem filter_without {table : List (List HashEntry)} (absent : f ∉ table.flatten.map HashEntry.data) :
    (table.map fun bucket => bucket.filter fun entry => entry.data != f) = table := by
  refine (List.map_congr_left fun bucket mem => ?_).trans (List.map_id _)
  refine List.filter_eq_self.mpr fun entry among => ?_
  simpa using fun same => absent (List.mem_map.mpr ⟨entry, List.mem_flatten.mpr ⟨bucket, mem, among⟩, same⟩)

theorem hashTbSearch_del_without (nodup : σ.recorded.Nodup)
    (found : σ.hashTbSearch cfg name .del = .ok (some f, σ')) : σ'.table = (σ.without f).table := by
  have gone : f ∉ σ'.recorded :=
    (List.nodup_cons.mp ((hashTbSearch_del_recorded found).nodup_iff.mp nodup)).1
  obtain ⟨others, searched, table⟩ := hashTbSearch_some found
  obtain ⟨before, after, file, split, rfl, -⟩ := searchBucket_some searched
  have inside := inside_of_found searched
  rw [if_pos rfl] at table
  have bucket : (before ++ after).filter (fun entry => entry.data != f) =
      (σ.table[hashTbPos cfg name]).filter fun entry => entry.data != f := by
    rw [← List.getD_eq_getElem _ [] inside, split]
    simp
  calc σ'.table
      _ = σ'.table.map fun bucket => bucket.filter fun entry => entry.data != f := (filter_without gone).symm
      _ = (σ.without f).table := by
          rw [table]
          show (σ.table.set _ _).map _ = σ.table.map _
          rw [List.map_set, bucket]
          have own := List.set_getElem_self (show hashTbPos cfg name < (σ.without f).table.length by
            simpa [without] using inside)
          exact (congrArg _ (List.getElem_map ..).symm).trans own

end Store

/-! ## The directory -/

def Store.directory (cfg : Config) : Directory {σ : Store // σ.Tidy} Path FileId CStr where
  find σ name := σ.1.leads cfg name
  remove σ f := ⟨σ.1.without f, σ.2.without f⟩
  same := strncmpEq
  read σ str := σ.1.string str

theorem Store.directory_lawful (cfg : Config) : (Store.directory cfg).Lawful where
  refl name := by simp [directory, strncmpEq]
  symm := by
    intro m n same
    exact (strncmpEq_comm n m).trans same
  trans := by
    intro l m n first second
    exact strncmpEq_iff.mpr ((strncmpEq_iff.mp first).trans (strncmpEq_iff.mp second))
  other name := by
    cases name with
    | nil => exact ⟨[1], by simp [directory, strncmpEq, posixPathMax]⟩
    | cons c name => exact ⟨[], by simp [directory, strncmpEq, posixPathMax]⟩
  spelled p := by
    cases p with
    | none => exact ⟨.null, fun _ => rfl⟩
    | some path => exact ⟨.buf path, fun _ => rfl⟩
  find_same := by
    intro σ m n f first second
    show strncmpEq m n = true
    rw [Store.lookup_names (σ.2.leads_iff.mp first) (σ.2.leads_iff.mp second)]
    simp [strncmpEq]
  find_remove_none f missing := leads_without_none missing f
  find_remove_ne found other := leads_without_ne found other

end

end FileServer
