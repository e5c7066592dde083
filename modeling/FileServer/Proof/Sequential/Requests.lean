import FileServer.Proof.Sequential.Effects

/-!
# Requests served one after the other

`Served` collects the states between completed requests; every one of them is `Idle`.
-/

namespace FileServer
open Program

def Request.WellFormed : Request → Prop
  | .fileWrite _ _ size data | .fileAppend _ _ size data => data.length = size ∧ size < 2 ^ 64
  | _ => True

/-- The states reached from the start by completed requests, served one after the other by any
workers, each of which met the condition. -/
inductive Served (W : Type) (cfg : Config) (meets : Store → Request → Prop) : Server W → Prop where
  | initial : Served W cfg meets (Server.initial W cfg)
  | request {s s' w fuel fd r} (before : Served W cfg meets s) (wellFormed : r.WellFormed)
      (met : meets s.store r)
      (completed : (server W cfg).run w (handle cfg fuel fd r) s = .ok ((), s')) :
      Served W cfg meets s'

/-- The same runs, with a history that every completed request extends. -/
inductive Traced {G : Type} (W : Type) (cfg : Config) (meets : Store → Request → Prop)
    (extend : G → Store → Store → Request → G) (start : G) : G → Server W → Prop where
  | initial : Traced W cfg meets extend start start (Server.initial W cfg)
  | request {g s s' w fuel fd r} (before : Traced W cfg meets extend start g s)
      (wellFormed : r.WellFormed) (met : meets s.store r)
      (completed : (server W cfg).run w (handle cfg fuel fd r) s = .ok ((), s')) :
      Traced W cfg meets extend start (extend g s.store s'.store r) s'

section
variable {W : Type} {strict : Prop} {cfg : Config} {w : W} {s s₁ s₂ s' : Server W} {r : Request}
  {f : FileId} {file : MemFile}

/-! ## All requests -/

theorem ends_handle (fuel fd : Nat) (idle : Idle cfg s) (wellFormed : r.WellFormed) :
    Ends False cfg w (handle cfg fuel fd r) (fun _ s' => Effect cfg r s s') s := by
  have quiet {p : Handler Unit} (h : Ends False cfg w p (fun _ s' => Quiet s s') s) :
      Ends False cfg w p (fun _ s' => Effect cfg r s s') s :=
    wp_mono h fun _ s' same => same.effect idle r
  cases r with
  | fileRead path pid => exact quiet (ends_fileRead fd path pid idle)
  | fileNRead fileNum rand => exact quiet (ends_fileNRead fd fileNum rand idle)
  | fileWrite path pid fileSize data => exact ends_fileWrite fuel fd path pid idle wellFormed.1
  | fileAppend path pid appendSize data =>
      exact ends_fileAppend fuel fd path pid idle wellFormed.1 wellFormed.2
  | fileOpen path pid => exact ends_fileOpen fd path pid idle
  | fileClose path pid => exact ends_fileClose fd path pid idle
  | fileDelete path pid => exact ends_fileDelete fd path pid idle
  | fileLock => exact quiet (Quiet.refl s)
  | fileUnlock => exact quiet (Quiet.refl s)
  | fileSearch path =>
      refine quiet ?_
      unfold handle
      rw [ends_bind]
      exact wp_mono (ends_fileSearch fd path idle) fun _ s' same => same
  | fileInit path => exact ends_fileInit fd path idle

theorem idle_initial (W : Type) (cfg : Config) : Idle cfg (Server.initial W cfg) := by
  have buckets (i : Nat) :
      (List.replicate cfg.fileHashTbSize ([] : List HashEntry)).getD i [] = [] := by
    by_cases inside : i < cfg.fileHashTbSize <;> simp [List.getD, inside]
  have recorded : (memorySetup cfg).recorded = [] := by
    simp [Store.recorded, memorySetup]
  refine ⟨fun _ => rfl, { tableLen := List.length_replicate, keyed := fun i entry mem => ?_
                          nodup := ?_, fresh := fun _ _ => rfl, ledger := ?_, pageN := rfl
                          buffers := fun _ => List.length_replicate
                          shaped := fun f file mem => ?_ }⟩
  · change entry ∈ (List.replicate cfg.fileHashTbSize []).getD i [] at mem
    rw [buckets] at mem
    cases mem
  · show (memorySetup cfg).recorded.Nodup
    rw [recorded]
    exact List.nodup_nil
  · show (pageListCreate _ ++ [] ++ (memorySetup cfg).recorded.flatMap _).Perm _
    rw [recorded, pageListCreate, List.foldl_flip_cons_eq_append']
    simp only [List.append_nil, List.flatMap_nil]
    exact List.reverse_perm _
  · change f ∈ (memorySetup cfg).recorded at mem
    rw [recorded] at mem
    cases mem

theorem effect_of_run {fuel fd : Nat} (idle : Idle cfg s) (wellFormed : r.WellFormed)
    (completed : (server W cfg).run w (handle cfg fuel fd r) s = .ok ((), s')) :
    Effect cfg r s s' :=
  (ends_handle fuel fd idle wellFormed).run completed

theorem Served.idle {meets : Store → Request → Prop} (served : Served W cfg meets s) :
    Idle cfg s := by
  induction served with
  | initial => exact idle_initial W cfg
  | request before wellFormed met completed ih =>
      exact (effect_of_run ih wellFormed completed).idle

theorem Served.anyhow {meets : Store → Request → Prop} (served : Served W cfg meets s) :
    Served W cfg (fun _ _ => True) s := by
  induction served with
  | initial => exact .initial
  | request before wellFormed met completed ih => exact ih.request wellFormed trivial completed

end

/-! ## Executable runs -/

def serve (cfg : Config) (fuel fd : Nat) : List Request → Server Unit → Option (Server Unit)
  | [], s => some s
  | r :: rs, s => match (server Unit cfg).run () (handle cfg fuel fd r) s with
      | .ok (_, s') => serve cfg fuel fd rs s'
      | _ => none

theorem Served.serve {cfg : Config} {fuel fd : Nat} {meets : Store → Request → Prop}
    {s s' : Server Unit} {rs : List Request} (served : Served Unit cfg meets s)
    (wellFormed : ∀ r ∈ rs, r.WellFormed) (met : ∀ r ∈ rs, ∀ σ, meets σ r)
    (ran : serve cfg fuel fd rs s = some s') : Served Unit cfg meets s' := by
  induction rs generalizing s with
  | nil =>
      cases ran
      exact served
  | cons r rs ih =>
      unfold FileServer.serve at ran
      split at ran
      · rename_i s₁ completed
        refine ih (served.request (wellFormed r List.mem_cons_self)
          (met r List.mem_cons_self _) completed) (fun r' mem => ?_) (fun r' mem => ?_) ran
        · exact wellFormed r' (List.mem_cons_of_mem r mem)
        · exact met r' (List.mem_cons_of_mem r mem)
      · cases ran

def reached (cfg : Config) (fuel : Nat) (rs : List Request) : Server Unit :=
  (serve cfg fuel 0 rs (Server.initial Unit cfg)).getD (Server.initial Unit cfg)

theorem served_reached {cfg : Config} {fuel : Nat} {meets : Store → Request → Prop}
    {rs : List Request} (wellFormed : ∀ r ∈ rs, r.WellFormed) (met : ∀ r ∈ rs, ∀ σ, meets σ r)
    (ran : (serve cfg fuel 0 rs (Server.initial Unit cfg)).isSome = true) :
    Served Unit cfg meets (reached cfg fuel rs) := by
  obtain ⟨s', same⟩ := Option.isSome_iff_exists.mp ran
  unfold reached
  rw [same]
  exact Served.initial.serve wellFormed met same

/-- The history along the run of `serve`. -/
def history {G : Type} (extend : G → Store → Store → Request → G) (cfg : Config) (fuel fd : Nat) :
    List Request → G → Server Unit → G
  | [], g, _ => g
  | r :: rs, g, s => match (server Unit cfg).run () (handle cfg fuel fd r) s with
      | .ok (_, s') => history extend cfg fuel fd rs (extend g s.store s'.store r) s'
      | _ => g

theorem Traced.served {G W : Type} {cfg : Config} {meets : Store → Request → Prop}
    {extend : G → Store → Store → Request → G} {start g : G} {s : Server W}
    (traced : Traced W cfg meets extend start g s) : Served W cfg meets s := by
  induction traced with
  | initial => exact .initial
  | request before wellFormed met completed ih => exact ih.request wellFormed met completed

def metAll (test : Store → Request → Bool) (cfg : Config) (fuel fd : Nat) :
    List Request → Server Unit → Bool
  | [], _ => true
  | r :: rs, s => test s.store r && match (server Unit cfg).run () (handle cfg fuel fd r) s with
      | .ok (_, s') => metAll test cfg fuel fd rs s'
      | _ => false

theorem Traced.serve {G : Type} {cfg : Config} {fuel fd : Nat} {meets : Store → Request → Prop}
    {extend : G → Store → Store → Request → G} {start g : G} {s : Server Unit} {rs : List Request}
    {test : Store → Request → Bool} (traced : Traced Unit cfg meets extend start g s)
    (sound : ∀ σ r, test σ r = true → meets σ r) (wellFormed : ∀ r ∈ rs, r.WellFormed)
    (passed : metAll test cfg fuel fd rs s = true) : ∃ s', FileServer.serve cfg fuel fd rs s = some s' ∧
      Traced Unit cfg meets extend start (history extend cfg fuel fd rs g s) s' := by
  induction rs generalizing g s with
  | nil => exact ⟨s, rfl, traced⟩
  | cons r rs ih =>
      unfold metAll at passed
      obtain ⟨met, rest⟩ := Bool.and_eq_true_iff.mp passed
      unfold FileServer.serve history
      cases completed : (server Unit cfg).run () (handle cfg fuel fd r) s with
      | ok result =>
          rw [completed] at rest
          have after := traced.request (wellFormed r List.mem_cons_self) (sound _ r met) completed
          exact ih after (fun r' mem => wellFormed r' (List.mem_cons_of_mem r mem)) rest
      | _ =>
          rw [completed] at rest
          cases rest

theorem traced_reached {G : Type} {cfg : Config} {fuel : Nat} {meets : Store → Request → Prop}
    {extend : G → Store → Store → Request → G} {start : G} {rs : List Request}
    (test : Store → Request → Bool) (sound : ∀ σ r, test σ r = true → meets σ r)
    (wellFormed : ∀ r ∈ rs, r.WellFormed)
    (passed : metAll test cfg fuel 0 rs (Server.initial Unit cfg) = true) :
    Traced Unit cfg meets extend start
      (history extend cfg fuel 0 rs start (Server.initial Unit cfg)) (reached cfg fuel rs) := by
  obtain ⟨s', ran, traced⟩ := Traced.initial.serve sound wellFormed passed
  unfold reached
  rw [ran]
  exact traced

def smallConfig : Config :=
  ⟨16, 4, 2, 1, by decide, by decide, by decide, by decide, by decide, by decide⟩

end FileServer
