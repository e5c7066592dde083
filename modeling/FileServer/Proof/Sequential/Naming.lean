import FileServer.Proof.Concurrent.Creation
import FileServer.Proof.Sequential.Completed
import FileServer.Proof.Sequential.Directory

/-!
# One record for each name

What names lead to while a file is created only when there is none of its name.
-/

namespace FileServer
open Program

/-- The state between requests, when there is one record of each name and names fit in a buffer. -/
structure UniqueNames (cfg : Config) (σ : Store) : Prop where
  consistent : Consistent cfg none [] σ
  one : OnePerPath σ
  short : ∀ f ∈ σ.recorded, ∀ path, σ.pathAt f = some path → path.length < posixPathMax

/-- A file is created only while there is none of its name, which fits in a buffer. -/
def CreatesOnce (cfg : Config) (σ : Store) : Request → Prop
  | .fileInit path => σ.lookup cfg path = .ok none ∧ path.length < posixPathMax
  | _ => True

section
variable {W : Type} {cfg : Config} {w : W} {s s' : Server W} {σ : Store} {f g : FileId} {path : Path}
  {r : Request} {fuel fd : Nat}

theorem eq_of_strncmpEq {name : Path} (same : strncmpEq name path = true)
    (short : path.length < posixPathMax) : name = path := by
  have cut := strncmpEq_iff.mp same
  rw [List.take_of_length_le (Nat.le_of_lt short)] at cut
  have length := congrArg List.length cut
  rw [List.length_take] at length
  rw [← cut, List.take_of_length_le (by omega)]

theorem uniqueNames_initial (W : Type) (cfg : Config) : UniqueNames cfg (Server.initial W cfg).store := by
  have consistent := (idle_initial W cfg).consistent
  have recorded := recorded_memorySetup cfg
  refine ⟨consistent, ⟨consistent.nodup, fun f mem => ?_⟩, fun f mem => ?_⟩
  · change f ∈ (memorySetup cfg).recorded at mem
    rw [recorded] at mem
    cases mem
  · change f ∈ (memorySetup cfg).recorded at mem
    rw [recorded] at mem
    cases mem

theorem Effect.before (effect : Effect cfg r s s') (notInit : ∀ path, r ≠ .fileInit path)
    (mem : g ∈ s'.store.recorded) :
    g ∈ s.store.recorded ∧ s'.store.pathAt g = s.store.pathAt g := by
  rcases effect.each g mem with ⟨before, kept, -⟩ | changed
  · exact ⟨before, congrArg (Option.map MemFile.abspath) kept⟩
  · cases changed with
    | @created path found => exact absurd rfl (notInit path)
    | opened recorded found found' | closed recorded found found' | written recorded found _ found' =>
        refine ⟨recorded, ?_⟩
        rw [Store.pathAt_of found, Store.pathAt_of found']
    | appended recorded _ found _ _ _ _ found' =>
        refine ⟨recorded, ?_⟩
        rw [Store.pathAt_of found, Store.pathAt_of found', MemFile.grown]

theorem pathAt_create (path : Path) (other : g ≠ σ.next) :
    (σ.create cfg path).pathAt g = σ.pathAt g :=
  congrArg (Option.map MemFile.abspath) (Function.update_of_ne other ..)

theorem pathAt_create_next (path : Path) : (σ.create cfg path).pathAt σ.next = some path := by
  have found : (σ.create cfg path).files σ.next = some ⟨[], 0, path, 0, []⟩ := Function.update_self ..
  rw [Store.pathAt_of found]

namespace UniqueNames

theorem leads_iff (unique : UniqueNames cfg σ) :
    σ.leads cfg path = some f ↔ f ∈ σ.recorded ∧ σ.pathAt f = some path := by
  have tidy := unique.consistent.tidy
  have sound {g : FileId} (leads : σ.leads cfg path = some g) :
      g ∈ σ.recorded ∧ σ.pathAt g = some path := by
    have searched := Store.lookup_eq_ok.mp (tidy.leads_iff.mp leads)
    have mem := Store.hashTbSearch_mem searched
    obtain ⟨file, found, same⟩ := Store.hashTbSearch_alive searched
    have here := Store.pathAt_of found
    rw [eq_of_strncmpEq same (unique.short g mem _ here)]
    exact ⟨mem, here⟩
  refine ⟨sound, fun ⟨mem, here⟩ => ?_⟩
  obtain ⟨i, entry, inBucket, rfl⟩ := Store.mem_recorded.mp mem
  obtain ⟨file, found, key, rfl⟩ := unique.consistent.keyed i entry inBucket
  rw [Store.pathAt_of found] at here
  cases here
  have stops : σ.stopsAt file.abspath entry = true := by simp [Store.stopsAt, key, found, strncmpEq]
  obtain ⟨other, leads⟩ : ∃ g, σ.leads cfg file.abspath = some g := by
    obtain ⟨other, first⟩ := Option.isSome_iff_exists.mp
      (List.find?_isSome.mpr ⟨entry, inBucket, stops⟩)
    exact ⟨other.data, by rw [Store.leads, first]; rfl⟩
  obtain ⟨mem', here'⟩ := sound leads
  rw [leads, unique.one.one _ mem' _ mem _ here' (Store.pathAt_of found)]

theorem lookup_iff (unique : UniqueNames cfg σ) :
    σ.lookup cfg path = .ok (some f) ↔ f ∈ σ.recorded ∧ σ.pathAt f = some path := by
  rw [← unique.consistent.tidy.leads_iff, unique.leads_iff]

theorem create (unique : UniqueNames cfg σ) (absent : σ.lookup cfg path = .ok none)
    (short : path.length < posixPathMax) : UniqueNames cfg (σ.create cfg path) := by
  have consistent := unique.consistent
  have after := consistent.create path
  have perm := consistent.recorded_create path
  have known {g : FileId} (mem : g ∈ (σ.create cfg path).recorded) : g = σ.next ∨ g ∈ σ.recorded :=
    List.mem_cons.mp (perm.mem_iff.mp mem)
  have old {g : FileId} (mem : g ∈ σ.recorded) : (σ.create cfg path).pathAt g = σ.pathAt g :=
    pathAt_create path (consistent.ne_next mem)
  have unused {g : FileId} (mem : g ∈ σ.recorded) : σ.pathAt g ≠ some path := by
    intro here
    cases (unique.lookup_iff.mpr ⟨mem, here⟩).symm.trans absent
  refine ⟨after, ⟨after.nodup, fun f mem g mem' other here there => ?_⟩, fun f mem other here => ?_⟩
  · rcases known mem with rfl | before <;> rcases known mem' with rfl | before'
    · rfl
    · rw [pathAt_create_next] at here
      cases here
      rw [old before'] at there
      exact absurd there (unused before')
    · rw [pathAt_create_next] at there
      cases there
      rw [old before] at here
      exact absurd here (unused before)
    · rw [old before] at here
      rw [old before'] at there
      exact unique.one.one f before g before' other here there
  · rcases known mem with rfl | before
    · rw [pathAt_create_next] at here
      cases here
      exact short
    · rw [old before] at here
      exact unique.short f before other here

theorem request (unique : UniqueNames cfg s.store) (idle : Idle cfg s) (wellFormed : r.WellFormed)
    (once : CreatesOnce cfg s.store r)
    (completed : (server W cfg).run w (handle cfg fuel fd r) s = .ok ((), s')) :
    UniqueNames cfg s'.store := by
  have effect := effect_of_run idle wellFormed completed
  by_cases init : ∃ path, r = .fileInit path
  · obtain ⟨path, rfl⟩ := init
    cases (idle.run_fileInit w fd path).symm.trans completed
    exact unique.create once.1 once.2
  · have before {g : FileId} (mem : g ∈ s'.store.recorded) :=
      effect.before (fun path same => init ⟨path, same⟩) mem
    have nodup := effect.idle.consistent.nodup
    refine ⟨effect.idle.consistent, unique.one.sub ?_ ?_, fun f mem path here => ?_⟩
    · exact List.subperm_of_subset nodup fun g mem => (before mem).1
    · intro f mem path here
      rw [← (before mem).2, here]
    · rw [(before mem).2] at here
      exact unique.short f (before mem).1 path here

end UniqueNames

end

end FileServer
