import FileServer.Proof.Sequential.Views

/-!
# Secrecy of removed files

Two runs that differ in the bytes written to one file. Pages are handed on without being cleared, so
once that file is gone the runs look the same only as long as every byte that `sendFile` sends has
been written by the file it belongs to now.
-/

namespace FileServer
open Program

/-- The same request, up to the bytes written to the file `g`. -/
inductive SameBut (cfg : Config) (g : FileId) (σ : Store) : Request → Request → Prop where
  | same (r : Request) : SameBut cfg g σ r r
  | fileWrite {path pid n data₁ data₂} (searched : σ.lookup cfg path = .ok (some g)) :
      SameBut cfg g σ (.fileWrite path pid n data₁) (.fileWrite path pid n data₂)
  | fileAppend {path pid n data₁ data₂} (searched : σ.lookup cfg path = .ok (some g)) :
      SameBut cfg g σ (.fileAppend path pid n data₁) (.fileAppend path pid n data₂)

/-- Two runs complete a request that met the condition. -/
inductive TwinStep (W : Type) (cfg : Config) (g : FileId) (meets : Store → Request → Prop) :
    Server W × Server W → Server W × Server W → Prop where
  | request {s₁ s₂ s₁' s₂' w fuel fd r₁ r₂} (same : SameBut cfg g s₁.store r₁ r₂)
      (wellFormed₁ : r₁.WellFormed) (wellFormed₂ : r₂.WellFormed) (met : meets s₁.store r₁)
      (completed₁ : (server W cfg).run w (handle cfg fuel fd r₁) s₁ = .ok ((), s₁'))
      (completed₂ : (server W cfg).run w (handle cfg fuel fd r₂) s₂ = .ok ((), s₂')) :
      TwinStep W cfg g meets (s₁, s₂) (s₁', s₂')

/-- Once `g` has been created, no accepted append to another file leaves a page unwritten. -/
def WritesPages (cfg : Config) (g : FileId) (σ : Store) : Request → Prop
  | .fileAppend path pid n _ => g < σ.next → ∀ f file, σ.lookup cfg path = .ok (some f) →
      σ.files f = some file → f ≠ g → appendError cfg file pid n = 0 → ¬LeavesPage cfg file.size n
  | _ => True

/-- The record `g` was made, and it has left the table. -/
def Gone {W : Type} (g : FileId) (s : Server W) : Prop :=
  g < s.store.next ∧ g ∉ s.store.recorded

def Request.copies : Request → Bool
  | .fileWrite _ _ _ _ | .fileAppend _ _ _ _ => true
  | _ => false

structure Twins {W : Type} (cfg : Config) (g : FileId) (p : Server W × Server W) : Prop where
  idle₁ : Idle cfg p.1
  idle₂ : Idle cfg p.2
  twin : Twin p.1 p.2
  views : Views cfg g p.1.store p.2.store
  before : p.1.store.next ≤ g → p.1 = p.2

section
variable {W : Type} {cfg : Config} {w : W} {g f : FileId} {s₁ s₂ s₁' s₂' : Server W}
  {file file' : MemFile} {mem₁ mem₂ : Nat → List UInt8} {data data₁ data₂ : List UInt8} {k n : Nat}

/-! ## Requests that do not touch the pages -/

theorem Views.effect {r : Request} (views : Views cfg g s₁.store s₂.store)
    (effect : Effect cfg r s₁ s₁') (copies : r.copies = false)
    (same₁ : s₁'.store.memPtr = s₁.store.memPtr) (same₂ : s₂'.store.memPtr = s₂.store.memPtr) :
    Views cfg g s₁'.store s₂'.store := by
  intro f mem other file' found'
  rw [same₁, same₂]
  rcases effect.each f mem with ⟨before, kept⟩ | changed
  · exact views f before other file' (kept.1.symm.trans found')
  · cases changed with
    | created found =>
        cases Option.some.inj (found'.symm.trans found)
        rfl
    | opened before found foundAfter | closed before found foundAfter =>
        cases Option.some.inj (found'.symm.trans foundAfter)
        have seen := views f before other _ found
        exact seen
    | written | appended => cases copies

theorem mirrors_blind {r : Request} {fuel fd : Nat} (idle₁ : Idle cfg s₁) (twin : Twin s₁ s₂)
    (views : Views cfg g s₁.store s₂.store) (wellFormed : r.WellFormed) (copies : r.copies = false)
    (blind : (handle cfg fuel fd r).All (·.blind = true))
    (completed₁ : (server W cfg).run w (handle cfg fuel fd r) s₁ = .ok ((), s₁'))
    (completed₂ : (server W cfg).run w (handle cfg fuel fd r) s₂ = .ok ((), s₂')) :
    Mirrors cfg g s₁ s₂ s₁' s₂' := by
  obtain ⟨_, _, completed, -, faces⟩ := paired_blind blind twin.faces () s₁' completed₁
  cases completed.symm.trans completed₂
  refine ⟨faces.twin, ?_, fun _ => faces.sent⟩
  obtain ⟨t, rfl, rfl⟩ := faces
  exact views.effect (effect_of_run idle₁ wellFormed completed₁) copies rfl rfl

/-! ## Reads -/

namespace Mirrors

theorem refl (twin : Twin s₁ s₂) (views : Views cfg g s₁.store s₂.store) :
    Mirrors cfg g s₁ s₂ s₁ s₂ :=
  ⟨twin, views, fun _ => ⟨[], (List.append_nil _).symm, (List.append_nil _).symm⟩⟩

theorem trans {t₁ t₂ : Server W} (first : Mirrors cfg g s₁ s₂ t₁ t₂)
    (recorded : t₁.store.recorded = s₁.store.recorded) (rest : Mirrors cfg g t₁ t₂ s₁' s₂') :
    Mirrors cfg g s₁ s₂ s₁' s₂' := by
  refine ⟨rest.twin, rest.views, fun gone => ?_⟩
  obtain ⟨out, sent₁, sent₂⟩ := first.sent gone
  obtain ⟨out', sent₁', sent₂'⟩ := rest.sent (by rwa [recorded])
  exact ⟨out ++ out', by rw [sent₁', sent₁, List.append_assoc],
    by rw [sent₂', sent₂, List.append_assoc]⟩

theorem sendAll {msgs₁ msgs₂ : List Msg} (twin : Twin s₁ s₂) (views : Views cfg g s₁.store s₂.store)
    (fd : Nat) (same : g ∉ s₁.store.recorded → msgs₁ = msgs₂) :
    Mirrors cfg g s₁ s₂ (s₁.sendAll fd msgs₁) (s₂.sendAll fd msgs₂) := by
  refine ⟨⟨twin.owner, twin.store⟩, views, fun gone => ?_⟩
  cases same gone
  exact ⟨_, rfl, rfl⟩

theorem send (mirrors : Mirrors cfg g s₁ s₂ s₁' s₂') (fd : Nat) (msg : Msg) :
    Mirrors cfg g s₁ s₂ (s₁'.send fd msg) (s₂'.send fd msg) := by
  refine ⟨⟨mirrors.twin.owner, mirrors.twin.store⟩, mirrors.views, fun gone => ?_⟩
  obtain ⟨out, sent₁, sent₂⟩ := mirrors.sent gone
  exact ⟨out ++ [(fd, msg)], by rw [Server.send_sent, sent₁, List.append_assoc],
    by rw [Server.send_sent, sent₂, List.append_assoc]⟩

end Mirrors

theorem Views.messages (views : Views cfg g s₁.store s₂.store) (mem : f ∈ s₁.store.recorded)
    (found : s₁.store.files f = some file) (gone : g ∉ s₁.store.recorded) :
    fileMessages cfg s₁.store.memPtr file = fileMessages cfg s₂.store.memPtr file := by
  have other : f ≠ g := fun same => gone (same ▸ mem)
  unfold fileMessages
  rw [views f mem other file found]

theorem mirrors_read {path : Path} {pid : Pid} {fd : Nat} (idle₁ : Idle cfg s₁) (idle₂ : Idle cfg s₂)
    (twin : Twin s₁ s₂) (views : Views cfg g s₁.store s₂.store)
    (completed₁ : (server W cfg).run w (fileRead cfg fd path pid) s₁ = .ok ((), s₁'))
    (completed₂ : (server W cfg).run w (fileRead cfg fd path pid) s₂ = .ok ((), s₂')) :
    Mirrors cfg g s₁ s₂ s₁' s₂' := by
  rcases idle₁.lookup path with missing | ⟨f, file, searched, mem, found⟩
  · have missing₂ : s₂.store.lookup cfg path = .ok none := by rwa [twin.lookup]
    cases (idle₁.run_fileRead_missing w fd pid missing).symm.trans completed₁
    cases (idle₂.run_fileRead_missing w fd pid missing₂).symm.trans completed₂
    exact .sendAll twin views fd fun _ => (rfl : [Msg.int ENOENT] = _)
  have searched₂ : s₂.store.lookup cfg path = .ok (some f) := by rwa [twin.lookup]
  have found₂ : s₂.store.files f = some file := by rwa [twin.files]
  by_cases refused : openError file pid ≠ 0
  · cases (idle₁.run_fileRead_refused w fd pid searched found refused).symm.trans completed₁
    cases (idle₂.run_fileRead_refused w fd pid searched₂ found₂ refused).symm.trans completed₂
    exact .sendAll twin views fd fun _ => (rfl : [Msg.int (openError file pid)] = _)
  · have accepted := not_not.mp refused
    cases (idle₁.run_fileRead_accepted w fd searched found accepted).symm.trans completed₁
    cases (idle₂.run_fileRead_accepted w fd searched₂ found₂ accepted).symm.trans completed₂
    refine .sendAll twin views fd fun gone => ?_
    rw [views.messages mem found gone]

theorem Views.nameReply {name : Path} {msgs₁ : List Msg} (views : Views cfg g s₁.store s₂.store)
    (idle₁ : Idle cfg s₁) (twin : Twin s₁ s₂) (reply : nameReply cfg s₁.store name = .ok msgs₁) :
    ∃ msgs₂, nameReply cfg s₂.store name = .ok msgs₂ ∧
      (g ∉ s₁.store.recorded → msgs₁ = msgs₂) := by
  have short := short_of_reply reply
  unfold FileServer.nameReply at *
  rw [twin.lookup, twin.files]
  rw [if_neg (Nat.not_le.mpr short)] at reply ⊢
  rcases idle₁.lookup name with missing | ⟨f, file, searched, mem, found⟩
  · rw [missing] at reply ⊢
    exact ⟨msgs₁, reply, fun _ => rfl⟩
  · rw [searched, Outcome.andThen_ok] at reply ⊢
    simp only [found] at reply ⊢
    cases named : fileShortenName file.abspath with
    | none =>
        rw [named] at reply
        cases reply
    | some nameSent =>
        rw [named] at reply
        cases reply
        refine ⟨_, rfl, fun gone => ?_⟩
        rw [views.messages mem found gone]

theorem paired_fileNReadLoop (fd : Nat) (names : List Path) (n i : Nat) (idle₁ : Idle cfg s₁)
    (idle₂ : Idle cfg s₂) (twin : Twin s₁ s₂) (views : Views cfg g s₁.store s₂.store) :
    (server W cfg).Paired w (fileNReadLoop cfg fd names n i) (fileNReadLoop cfg fd names n i)
      (fun _ _ t₁ t₂ => Mirrors cfg g s₁ s₂ t₁ t₂) s₁ s₂ := by
  induction n generalizing i s₁ s₂ with
  | zero => exact .ret (.refl twin views)
  | succ n ih =>
      have top (s : Server W) : (server W cfg).run w (call (.stackTop .null)) s =
          .ok (s.store.fstack.top, s) := rfl
      have sameTop : s₂.store.fstack.top = s₁.store.fstack.top := by rw [twin.store]
      intro x t₁ ends
      by_cases inside : i < s₁.store.fstack.top
      · cases entry : names[i]? with
        | none =>
            rw [fileNReadLoop, Machine.run_bind_of (top s₁), if_pos inside, entry] at ends
            cases ends
        | some name =>
            rw [idle₁.run_fileNReadLoop_succ w fd n inside entry, Outcome.andThen_eq_ok] at ends
            obtain ⟨msgs₁, reply₁, ends⟩ := ends
            obtain ⟨msgs₂, reply₂, same⟩ := views.nameReply idle₁ twin reply₁
            have first : Mirrors cfg g s₁ s₂ (s₁.sendAll fd msgs₁) (s₂.sendAll fd msgs₂) :=
              .sendAll twin views fd same
            rw [idle₂.run_fileNReadLoop_succ w fd n (by rwa [sameTop]) entry, reply₂,
              Outcome.andThen_ok]
            obtain ⟨y, t₂, ends₂, rest⟩ := ih (i + 1) ((Quiet.sendAll s₁ fd msgs₁).idle idle₁)
              ((Quiet.sendAll s₂ fd msgs₂).idle idle₂) first.twin first.views x t₁ ends
            exact ⟨y, t₂, ends₂, first.trans rfl rest⟩
      · rw [fileNReadLoop, Machine.run_bind_of (top s₁), if_neg inside] at ends
        cases ends
        refine ⟨(), s₂, ?_, .refl twin views⟩
        rw [fileNReadLoop, Machine.run_bind_of (top s₂), if_neg (by rwa [sameTop])]
        rfl

theorem blind_fileNReadStart (fileNum : Int) (rand : Nat → Nat) :
    (fileNReadStart fileNum rand).All (·.blind = true) := by
  unfold fileNReadStart arrayRandomPermutation
  refine (blind_of_tidy tidy_fileStackDefrag).bind fun _ => (blind_call rfl).bind fun _ =>
    (blind_call rfl).bind fun arrS => ?_
  refine ((blind_of_still (still_arrayCopy arrS 0)).bind fun _ => all_pure _).bind fun names =>
    (blind_call rfl).bind fun _ => ?_
  exact .ite ((blind_call rfl).bind fun _ => all_pure _) (all_pure _)

theorem mirrors_nread {fileNum : Int} {rand : Nat → Nat} {fd : Nat} (idle₁ : Idle cfg s₁)
    (idle₂ : Idle cfg s₂) (twin : Twin s₁ s₂) (views : Views cfg g s₁.store s₂.store)
    (completed₁ : (server W cfg).run w (fileNRead cfg fd fileNum rand) s₁ = .ok ((), s₁'))
    (completed₂ : (server W cfg).run w (fileNRead cfg fd fileNum rand) s₂ = .ok ((), s₂')) :
    Mirrors cfg g s₁ s₂ s₁' s₂' := by
  rw [fileNRead_split] at completed₁ completed₂
  rw [Machine.run_bind, Outcome.andThen_eq_ok] at completed₁
  obtain ⟨⟨⟨names, num⟩, t₁⟩, started₁, completed₁⟩ := completed₁
  obtain ⟨_, t₂, started₂, rfl, faces⟩ :=
    paired_blind (blind_fileNReadStart fileNum rand) twin.faces _ t₁ started₁
  have quiet {s t : Server W} (started : (server W cfg).run w (fileNReadStart fileNum rand) s =
      .ok ((names, num), t)) : Quiet s t :=
    (ends_fileNReadStart fileNum rand : Ends False cfg w _ _ s).run started
  have idle₁' := (quiet started₁).idle idle₁
  have idle₂' := (quiet started₂).idle idle₂
  obtain ⟨-, stack₁, store₁⟩ := quiet started₁
  obtain ⟨-, stack₂, store₂⟩ := quiet started₂
  have recorded : t₁.store.recorded = s₁.store.recorded := by
    rw [store₁]
    rfl
  have views' : Views cfg g t₁.store t₂.store := by
    rw [store₁, store₂]
    exact views
  have first : Mirrors cfg g s₁ s₂ t₁ t₂ := ⟨faces.twin, views', fun _ => faces.sent⟩
  have loop : (server W cfg).Paired w
      (do fileNReadLoop cfg fd names num.toNat 0; writeNB fd (.int 0))
      (do fileNReadLoop cfg fd names num.toNat 0; writeNB fd (.int 0))
      (fun _ _ u₁ u₂ => Mirrors cfg g t₁ t₂ u₁ u₂) t₁ t₂ := by
    refine (paired_fileNReadLoop fd names _ 0 idle₁' idle₂' faces.twin views').bind ?_
    intro _ _ u₁ u₂ mirrors _ u₁' ends
    cases ends
    exact ⟨(), _, run_writeNB fd _, mirrors.send fd _⟩
  obtain ⟨_, _, completed, rest⟩ := loop () s₁' completed₁
  rw [Machine.run_bind_of started₂] at completed₂
  cases completed.symm.trans completed₂
  exact first.trans recorded rest

/-! ## Every request -/

theorem mirrors_handle {r₁ r₂ : Request} {fuel fd : Nat} (idle₁ : Idle cfg s₁) (idle₂ : Idle cfg s₂)
    (twin : Twin s₁ s₂) (views : Views cfg g s₁.store s₂.store) (same : SameBut cfg g s₁.store r₁ r₂)
    (wellFormed₁ : r₁.WellFormed) (wellFormed₂ : r₂.WellFormed) (created : g < s₁.store.next)
    (met : WritesPages cfg g s₁.store r₁)
    (completed₁ : (server W cfg).run w (handle cfg fuel fd r₁) s₁ = .ok ((), s₁'))
    (completed₂ : (server W cfg).run w (handle cfg fuel fd r₂) s₂ = .ok ((), s₂')) :
    Mirrors cfg g s₁ s₂ s₁' s₂' := by
  have onlyG {path : Path} {data₁ data₂ : List UInt8}
      (searched : s₁.store.lookup cfg path = .ok (some g)) (f : FileId)
      (searched' : s₁.store.lookup cfg path = .ok (some f)) (other : f ≠ g) : data₁ = data₂ := by
    cases searched.symm.trans searched'
    exact absurd rfl other
  cases same with
  | fileWrite searched =>
      exact mirrors_write idle₁ idle₂ twin views wellFormed₁.1 wellFormed₂.1 (onlyG searched)
        completed₁ completed₂
  | fileAppend searched =>
      exact mirrors_append idle₁ idle₂ twin views wellFormed₁.1 wellFormed₂.1 wellFormed₁.2
        (onlyG searched) (met created) completed₁ completed₂
  | same =>
      have blind (r : Request) (wellFormed : r.WellFormed) (copies : r.copies = false)
          (all : (handle cfg fuel fd r).All (·.blind = true))
          (completed₁ : (server W cfg).run w (handle cfg fuel fd r) s₁ = .ok ((), s₁'))
          (completed₂ : (server W cfg).run w (handle cfg fuel fd r) s₂ = .ok ((), s₂')) :
          Mirrors cfg g s₁ s₂ s₁' s₂' :=
        mirrors_blind idle₁ twin views wellFormed copies all completed₁ completed₂
      cases r₁ with
      | fileRead path pid => exact mirrors_read idle₁ idle₂ twin views completed₁ completed₂
      | fileNRead fileNum rand => exact mirrors_nread idle₁ idle₂ twin views completed₁ completed₂
      | fileWrite path pid n data =>
          exact mirrors_write idle₁ idle₂ twin views wellFormed₁.1 wellFormed₂.1 (fun _ _ _ => rfl)
            completed₁ completed₂
      | fileAppend path pid n data =>
          exact mirrors_append idle₁ idle₂ twin views wellFormed₁.1 wellFormed₂.1 wellFormed₁.2
            (fun _ _ _ => rfl) (met created) completed₁ completed₂
      | fileOpen path pid =>
          exact blind (.fileOpen path pid) trivial rfl (blind_of_still (still_fileOpen fd path pid)) completed₁ completed₂
      | fileClose path pid =>
          exact blind (.fileClose path pid) trivial rfl (blind_of_still (still_fileClose fd path pid)) completed₁ completed₂
      | fileDelete path pid =>
          exact blind (.fileDelete path pid) trivial rfl (blind_of_bare (bare_fileDelete fd path pid)) completed₁ completed₂
      | fileLock => exact blind .fileLock trivial rfl (all_pure ()) completed₁ completed₂
      | fileUnlock => exact blind .fileUnlock trivial rfl (all_pure ()) completed₁ completed₂
      | fileSearch path =>
          exact blind (.fileSearch path) trivial rfl ((blind_of_still (still_fileSearch fd path)).bind fun _ =>
            all_pure _) completed₁ completed₂
      | fileInit path =>
          exact blind (.fileInit path) trivial rfl (blind_of_bare (bare_fileInit fd path)) completed₁ completed₂

theorem SameBut.eq_of_fresh {r₁ r₂ : Request} (idle : Idle cfg s₁)
    (same : SameBut cfg g s₁.store r₁ r₂) (fresh : s₁.store.next ≤ g) : r₁ = r₂ := by
  have none := idle.consistent.fresh g fresh
  cases same with
  | same => rfl
  | fileWrite searched | fileAppend searched =>
      obtain ⟨file, found, -⟩ := Store.hashTbSearch_alive (Store.lookup_eq_ok.mp searched)
      cases none.symm.trans found

theorem Twins.step {p q : Server W × Server W} (twins : Twins cfg g p)
    (step : TwinStep W cfg g (WritesPages cfg g) p q) :
    Twins cfg g q ∧ (Gone g p.1 →
      ∃ out, q.1.sent = p.1.sent ++ out ∧ q.2.sent = p.2.sent ++ out) := by
  obtain ⟨idle₁, idle₂, twin, views, before⟩ := twins
  cases step with
  | @request s₁ s₂ s₁' s₂' w fuel fd r₁ r₂ same wellFormed₁ wellFormed₂ met completed₁ completed₂ =>
      have idle₁' := (effect_of_run idle₁ wellFormed₁ completed₁).idle
      have idle₂' := (effect_of_run idle₂ wellFormed₂ completed₂).idle
      by_cases created : g < s₁.store.next
      · have mirrors := mirrors_handle idle₁ idle₂ twin views same wellFormed₁ wellFormed₂ created met
          completed₁ completed₂
        refine ⟨⟨idle₁', idle₂', mirrors.twin, mirrors.views, fun fresh => ?_⟩, fun gone =>
          mirrors.sent gone.2⟩
        exact absurd created (Nat.not_lt.mpr (Nat.le_trans (run_next completed₁) fresh))
      · have fresh := Nat.not_lt.mp created
        cases same.eq_of_fresh idle₁ fresh
        cases before fresh
        cases completed₁.symm.trans completed₂
        exact ⟨⟨idle₁', idle₂', .refl s₁', fun _ _ _ _ _ => rfl, fun _ => rfl⟩, fun gone =>
          absurd gone.1 created⟩

theorem twins_initial (W : Type) (cfg : Config) (g : FileId) :
    Twins cfg g (Server.initial W cfg, Server.initial W cfg) :=
  ⟨idle_initial W cfg, idle_initial W cfg, .refl _, fun _ _ _ _ _ => rfl, fun _ => rfl⟩

theorem Twins.steps {p q : Server W × Server W} (twins : Twins cfg g p)
    (steps : Relation.ReflTransGen (TwinStep W cfg g (WritesPages cfg g)) p q) : Twins cfg g q := by
  induction steps with
  | refl => exact twins
  | tail _ step ih => exact (ih.step step).1

theorem Gone.step {p q : Server W × Server W} (gone : Gone g p.1) (twins : Twins cfg g p)
    (step : TwinStep W cfg g (WritesPages cfg g) p q) : Gone g q.1 := by
  cases step with
  | @request s₁ s₂ s₁' s₂' w fuel fd r₁ r₂ same wellFormed₁ wellFormed₂ met completed₁ completed₂ =>
      refine ⟨Nat.lt_of_lt_of_le gone.1 (run_next completed₁), fun mem => ?_⟩
      rcases (effect_of_run twins.idle₁ wellFormed₁ completed₁).each g mem with kept | changed
      · exact gone.2 kept.1
      · cases changed with
        | @created path found =>
            have store := ((ends_fileInit_store fd path).run completed₁).1
            rw [store] at mem
            rcases List.mem_cons.mp
              ((twins.idle₁.consistent.recorded_create path).mem_iff.mp mem) with new | old
            · exact Nat.ne_of_lt gone.1 new
            · exact gone.2 old
        | opened before | closed before | written before | appended before => exact gone.2 before

theorem secrecy {p q : Server W × Server W}
    (before : Relation.ReflTransGen (TwinStep W cfg g (WritesPages cfg g))
      (Server.initial W cfg, Server.initial W cfg) p)
    (gone : Gone g p.1)
    (after : Relation.ReflTransGen (TwinStep W cfg g (WritesPages cfg g)) p q) :
    ∃ out, q.1.sent = p.1.sent ++ out ∧ q.2.sent = p.2.sent ++ out := by
  have twins := (twins_initial W cfg g).steps before
  have run : Gone g q.1 ∧ ∃ out, q.1.sent = p.1.sent ++ out ∧ q.2.sent = p.2.sent ++ out := by
    induction after with
    | refl => exact ⟨gone, [], (List.append_nil _).symm, (List.append_nil _).symm⟩
    | @tail q q' steps step ih =>
        obtain ⟨gone', out, sent₁, sent₂⟩ := ih
        have twins' := twins.steps steps
        obtain ⟨out', sent₁', sent₂'⟩ := (twins'.step step).2 gone'
        exact ⟨gone'.step twins' step, out ++ out', by rw [sent₁', sent₁, List.append_assoc],
          by rw [sent₂', sent₂, List.append_assoc]⟩
  exact run.2

end

/-! ## Executable pairs of runs -/

def Request.withData : Request → List UInt8 → Request
  | .fileWrite path pid n _, data => .fileWrite path pid n data
  | .fileAppend path pid n _, data => .fileAppend path pid n data
  | r, _ => r

/-- In each request of the script, the bytes of the second run stand beside it. -/
def twinServe (cfg : Config) (fuel : Nat) : List (Request × List UInt8) →
    Server Unit × Server Unit → Server Unit × Server Unit
  | [], p => p
  | (r, data) :: rest, p =>
      match (server Unit cfg).run () (handle cfg fuel 0 r) p.1,
        (server Unit cfg).run () (handle cfg fuel 0 (r.withData data)) p.2 with
      | .ok (_, s₁), .ok (_, s₂) => twinServe cfg fuel rest (s₁, s₂)
      | _, _ => p

def sameButTest (cfg : Config) (g : FileId) (σ : Store) : Request → List UInt8 → Bool
  | .fileWrite path _ n data₁, data₂ | .fileAppend path _ n data₁, data₂ =>
      decide (data₁.length = n ∧ data₂.length = n ∧ n < 2 ^ 64) &&
        (decide (data₁ = data₂) || decide (σ.lookup cfg path = .ok (some g)))
  | _, _ => true

instance (cfg : Config) (size n : Nat) : Decidable (LeavesPage cfg size n) :=
  inferInstanceAs (Decidable (_ ∧ _))

def writesPagesTest (cfg : Config) (g : FileId) (σ : Store) : Request → Bool
  | .fileAppend path pid n _ => match σ.lookup cfg path with
      | .ok (some f) => match σ.files f with
        | some file => decide (f = g ∨ appendError cfg file pid n ≠ 0 ∨ ¬LeavesPage cfg file.size n)
        | none => true
      | _ => true
  | _ => true

def twinPasses (cfg : Config) (g : FileId) (test : Store → Request → Bool) (fuel : Nat) :
    List (Request × List UInt8) → Server Unit × Server Unit → Bool
  | [], _ => true
  | (r, data) :: rest, p => sameButTest cfg g p.1.store r data && test p.1.store r &&
      match (server Unit cfg).run () (handle cfg fuel 0 r) p.1,
        (server Unit cfg).run () (handle cfg fuel 0 (r.withData data)) p.2 with
      | .ok (_, s₁), .ok (_, s₂) => twinPasses cfg g test fuel rest (s₁, s₂)
      | _, _ => false

section
variable {cfg : Config} {g : FileId} {σ : Store} {r : Request} {data : List UInt8}

theorem sameBut_of_test (passed : sameButTest cfg g σ r data = true) :
    SameBut cfg g σ r (r.withData data) ∧ r.WellFormed ∧ (r.withData data).WellFormed := by
  cases r with
  | fileWrite path pid n data₁ | fileAppend path pid n data₁ =>
      obtain ⟨sizes, same⟩ := Bool.and_eq_true_iff.mp passed
      obtain ⟨length₁, length₂, small⟩ := of_decide_eq_true sizes
      refine ⟨?_, ⟨length₁, small⟩, length₂, small⟩
      rcases Bool.or_eq_true_iff.mp same with same | searched
      · cases of_decide_eq_true same
        exact .same _
      · constructor
        exact of_decide_eq_true searched
  | _ => exact ⟨.same _, trivial, trivial⟩

theorem writesPages_of_test (passed : writesPagesTest cfg g σ r = true) : WritesPages cfg g σ r := by
  cases r with
  | fileAppend path pid n data =>
      intro _ f file searched found other accepted
      simp only [writesPagesTest, searched, found, decide_eq_true_eq] at passed
      rcases passed with same | refused | writes
      · exact absurd same other
      · exact absurd accepted refused
      · exact writes
  | _ => trivial

theorem twins_serve {meets : Store → Request → Prop} {test : Store → Request → Bool} {fuel : Nat}
    (sound : ∀ σ r, test σ r = true → meets σ r) (script : List (Request × List UInt8))
    (p : Server Unit × Server Unit) (passed : twinPasses cfg g test fuel script p = true) :
    Relation.ReflTransGen (TwinStep Unit cfg g meets) p (twinServe cfg fuel script p) := by
  induction script generalizing p with
  | nil => exact .refl
  | cons entry rest ih =>
      obtain ⟨r, data⟩ := entry
      unfold twinPasses at passed
      unfold twinServe
      obtain ⟨tests, onward⟩ := Bool.and_eq_true_iff.mp passed
      obtain ⟨same, met⟩ := Bool.and_eq_true_iff.mp tests
      obtain ⟨same, wellFormed₁, wellFormed₂⟩ := sameBut_of_test same
      split at onward
      · rename_i x₁ s₁ x₂ s₂ completed₁ completed₂
        exact .head (.request same wellFormed₁ wellFormed₂ (sound _ r met) completed₁ completed₂)
          (ih (s₁, s₂) onward)
      · cases onward

end

def twinStart : Server Unit × Server Unit :=
  (Server.initial Unit smallConfig, Server.initial Unit smallConfig)

/-- A file of twelve bytes, ones in one run and twos in the other, is deleted. -/
def secretDeleted : List (Request × List UInt8) :=
  [(.fileInit [97], []), (.fileOpen [97] 7, []),
    (.fileWrite [97] 7 12 (List.replicate 12 1), List.replicate 12 2), (.fileDelete [97] 7, [])]

/-- Another file is written, and `n` bytes are appended to it. -/
def appendAndRead (n : Nat) : List (Request × List UInt8) :=
  [(.fileInit [98], []), (.fileOpen [98] 7, []), (.fileWrite [98] 7 2 [5, 6], [5, 6]),
    (.fileAppend [98] 7 n (List.replicate n 7), List.replicate n 7), (.fileRead [98] 7, [])]

theorem deleted_steps (meets : Store → Request → Prop)
    (sound : ∀ σ r, writesPagesTest smallConfig 0 σ r = true → meets σ r) :
    Relation.ReflTransGen (TwinStep Unit smallConfig 0 meets) twinStart
      (twinServe smallConfig 9 secretDeleted twinStart) :=
  twins_serve sound secretDeleted twinStart (by decide +kernel)

/-- Six bytes behind two fill two pages of four; the third page is sent as the deleted file left
it. -/
theorem secrecy_broken : ∃ p q : Server Unit × Server Unit,
    Relation.ReflTransGen (TwinStep Unit smallConfig 0 fun _ _ => True) twinStart p ∧
    Gone 0 p.1 ∧ Gone 0 p.2 ∧
    Relation.ReflTransGen (TwinStep Unit smallConfig 0 fun _ _ => True) p q ∧
    ¬∃ out, q.1.sent = p.1.sent ++ out ∧ q.2.sent = p.2.sent ++ out := by
  refine ⟨_, twinServe smallConfig 9 (appendAndRead 6) (twinServe smallConfig 9 secretDeleted twinStart),
    deleted_steps _ fun _ _ _ => trivial, ⟨by decide +kernel, by decide +kernel⟩,
    ⟨by decide +kernel, by decide +kernel⟩, ?_, ?_⟩
  · have passed : twinPasses smallConfig 0 (fun _ _ => true) 9 (appendAndRead 6)
        (twinServe smallConfig 9 secretDeleted twinStart) = true := by decide +kernel
    exact twins_serve (fun _ _ _ => trivial) _ _ passed
  · rintro ⟨out, sent₁, sent₂⟩
    have before : (twinServe smallConfig 9 secretDeleted twinStart).1.sent =
        (twinServe smallConfig 9 secretDeleted twinStart).2.sent := by decide +kernel
    have same := sent₁.trans ((congrArg (· ++ out) before).trans sent₂.symm)
    exact absurd same (by decide +kernel)

theorem secrecy_example : (twinServe smallConfig 9 secretDeleted twinStart).1.store.memPtr 1 ≠
      (twinServe smallConfig 9 secretDeleted twinStart).2.store.memPtr 1 ∧
    ∃ out, (twinServe smallConfig 9 (appendAndRead 5)
        (twinServe smallConfig 9 secretDeleted twinStart)).1.sent =
          (twinServe smallConfig 9 secretDeleted twinStart).1.sent ++ out ∧
      (twinServe smallConfig 9 (appendAndRead 5)
        (twinServe smallConfig 9 secretDeleted twinStart)).2.sent =
          (twinServe smallConfig 9 secretDeleted twinStart).2.sent ++ out := by
  have passed : twinPasses smallConfig 0 (writesPagesTest smallConfig 0) 9 (appendAndRead 5)
      (twinServe smallConfig 9 secretDeleted twinStart) = true := by decide +kernel
  refine ⟨by decide +kernel, ?_⟩
  exact secrecy (deleted_steps _ fun _ _ => writesPages_of_test)
    ⟨by decide +kernel, by decide +kernel⟩
    (twins_serve (fun _ _ => writesPages_of_test) _ _ passed)

end FileServer
