import FileServer.Model.Reading
import FileServer.Proof.Sequential.EvictionOrder
import FileServer.Proof.Sequential.EvictionSequence
import Mathlib.Data.List.Infix

/-!
# The copy of the stack under concurrency

What a `fileNRead` copies and reads while other workers push and evict.
-/

namespace FileServer
open Program

def FileStack.Named (s : FileStack) (i : Nat) : Prop := ∃ name, s.stack[i]? = some (some name)

/-- The copy will come to no `NULL`, no index into it is out of range, and for `N = 0` the loop ends when
all its names have been visited. -/
structure Reading.Safe (fileNum : Int) (r : Reading) (σ : FileStack) : Prop where
  copies : r = .compacted → ∀ i < σ.top, σ.Named i
  inside : ∀ names n visited, r = .looking names n visited → visited.length < names.length
  all : fileNum = 0 → ∀ names visited, r = .ended names visited → visited = names

/-- The loop may ask for more names than were copied. -/
def Reading.exceeds (fileNum : Int) : Reading → Prop
  | .copied names => fileNum = 0 ∨ names.length < fileNum
  | .testing names n _ | .looking names n _ => names.length < n
  | _ => False

/-- Until the copy is made, no eviction passes over the uppermost cell. While it is in use, no name is pushed
when the top has reached its length and the loop may ask for more; and if all names are asked for, no
eviction leaves the top below its length. -/
def Undisturbed {W : Type} (cfg : Config) (fileNum : Int) (r : Reading) (s : Server W) : StackCall → Prop
  | .fileStackAdd _ => ∀ names, r.copy = some names → r.exceeds fileNum → s.store.fstack.top < names.length
  | .fileStackGetTop str => ∀ path f stack, s.readStr str = .ok path →
      s.store.fstack.getTop (s.store.lookup cfg) path = .ok (f, stack) →
        (r = .compacted → s.store.fstack.foundSelf path = false) ∧
          ∀ names, r.copy = some names → fileNum = 0 → names.length ≤ stack.top

def Level (fileNum : Int) (names : List Path) (exceeds : Prop) (σ : FileStack) : Prop :=
  (exceeds → σ.top ≤ names.length) ∧ (fileNum = 0 → names.length ≤ σ.top)

def Reading.Steady (fileNum : Int) (σ : FileStack) : Reading → Prop
  | .asked => True
  | .compacted => ∀ i < σ.top, σ.Named i
  | .copied names => Level fileNum names (fileNum = 0 ∨ names.length < fileNum) σ
  | .testing names n visited => Level fileNum names (names.length < n) σ ∧ visited <+: names ∧
      (fileNum = 0 → n = names.length)
  | .looking names n visited => Level fileNum names (names.length < n) σ ∧ visited <+: names ∧
      (fileNum = 0 → n = names.length) ∧ visited.length < names.length
  | .ended names visited => fileNum = 0 → visited = names

section
variable {W : Type} {cfg : Config} {w : W} {s s' : Server W} {fileNum : Int} {rand : Nat → Nat}
  {r r' : Reading} {strict : Prop} {c : StackCall}

theorem Reading.Steady.safe (steady : r.Steady fileNum s.store.fstack) : r.Safe fileNum s.store.fstack := by
  refine ⟨?_, ?_, ?_⟩
  · rintro rfl
    exact steady
  · rintro names n visited rfl
    exact steady.2.2.2
  · rintro all names visited rfl
    exact steady all

/-! ## The steps of the reader -/

theorem ends_hashGetFile_still (str : CStr) :
    Ends strict cfg w (hashGetFile str .src) (fun _ s' => s'.store.fstack = s.store.fstack) s := by
  refine ends_hashGetFile (fun _ => rfl) fun path f σ _ searched => ?_
  rw [Store.hashTbSearch_src_store searched]
  rfl

theorem FileStack.getElem?_moveCell_of_lt {σ : FileStack} {j last i : Nat} (lower : j < last) (low : last ≤ i) :
    (σ.moveCell last i).stack[j]? = σ.stack[j]? := by
  have first : (σ.stack.set last (σ.stack.getD i none))[j]? = σ.stack[j]? :=
    List.getElem?_set_ne (Nat.ne_of_gt lower)
  unfold FileStack.moveCell
  dsimp only
  split
  · rw [List.getElem?_set_ne (Nat.ne_of_gt (Nat.lt_of_lt_of_le lower low)), first]
  · exact first

theorem FileStack.getElem?_moveCell_self {σ : FileStack} {last i : Nat} {name : Path} (low : last ≤ i)
    (here : σ.stack[i]? = some (some name)) : (σ.moveCell last i).stack[last]? = some (some name) := by
  have inside : last < σ.stack.length := Nat.lt_of_le_of_lt low (List.getElem?_eq_some_iff.mp here).1
  have first : (σ.stack.set last (σ.stack.getD i none))[last]? = some (some name) := by
    simp [List.getElem?_set_self inside, here]
  unfold FileStack.moveCell
  dsimp only
  split
  · rename_i gap
    rw [List.getElem?_set_ne (Nat.ne_of_gt gap), first]
  · exact first

theorem ends_fileStackDefragLoop_named (n i last : Nat) (low : last ≤ i)
    (named : ∀ j < last, s.store.fstack.Named j) :
    Ends strict cfg w (fileStackDefragLoop n i last)
      (fun last s' => ∀ j < last, s'.store.fstack.Named j) s := by
  induction n generalizing i last s with
  | zero => exact named
  | succ n ih =>
      unfold fileStackDefragLoop
      rw [ends_bind]
      refine ends_call (by simp) fun cell s₁ step => ?_
      simp only [Server.exec] at step
      split at step
      · cases step
      · cases step
        exact ih (i + 1) last (Nat.le_succ_of_le low) named
      · rename_i name here
        cases step
        rw [ends_bind]
        refine wp_mono (ends_hashGetFile_still _) fun found s₂ same => ?_
        have inside : i < s.store.fstack.stack.length := (List.getElem?_eq_some_iff.mp here).1
        have kept (j : Nat) (below : j ≤ i) : s₂.store.fstack.stack[j]? = s.store.fstack.stack[j]? := by
          rw [same]
          show (s.store.fstack.dedup i name).stack[j]? = _
          unfold FileStack.dedup
          rw [List.getElem?_append_left (by simp; omega), List.getElem?_take_of_lt (Nat.lt_succ_of_le below)]
        cases found with
        | none =>
            rw [ends_bind]
            refine ends_call (by simp) fun x s₃ step => ?_
            cases step
            refine ih (i + 1) last (Nat.le_succ_of_le low) fun j below => ?_
            obtain ⟨other, cell⟩ := named j below
            refine ⟨other, ?_⟩
            show (s₂.store.fstack.stack.set i none)[j]? = _
            rw [List.getElem?_set_ne (by omega), kept j (by omega), cell]
        | some f =>
            rw [ends_bind]
            refine ends_call (by simp) fun x s₃ step => ?_
            cases step
            refine ih (i + 1) (last + 1) (Nat.succ_le_succ low) fun j below => ?_
            have here₂ : s₂.store.fstack.stack[i]? = some (some name) := (kept i (Nat.le_refl i)).trans here
            rcases Nat.lt_succ_iff_lt_or_eq.mp below with lower | rfl
            · obtain ⟨other, cell⟩ := named j lower
              refine ⟨other, ?_⟩
              show (s₂.store.fstack.moveCell last i).stack[j]? = _
              rw [FileStack.getElem?_moveCell_of_lt lower low, kept j (by omega), cell]
            · exact ⟨name, FileStack.getElem?_moveCell_self low here₂⟩

theorem ends_fileStackDefrag_named :
    Ends strict cfg w fileStackDefrag (fun _ s' => ∀ i < s'.store.fstack.top, s'.store.fstack.Named i) s := by
  unfold fileStackDefrag
  rw [ends_bind, ends_lock]
  intro _ free
  rw [ends_bind]
  refine ends_call (by simp) fun max s₁ step => ?_
  cases step
  rw [ends_bind]
  refine wp_mono (ends_fileStackDefragLoop_named _ 0 0 (Nat.le_refl 0) fun j below => absurd below (Nat.not_lt_zero j))
    fun last s₂ named => ?_
  rw [ends_bind]
  refine ends_call (by simp) fun x s₃ step => ?_
  cases step
  rw [ends_unlock]
  exact fun _ => named

theorem ends_stackCopy : Ends strict cfg w (stackCopy rand)
    (fun names s' => names.length = s.store.fstack.top ∧ s'.store.fstack = s.store.fstack) s := by
  unfold stackCopy arrayRandomPermutation
  rw [ends_bind, ends_lock]
  intro _ free
  rw [ends_bind]
  refine ends_call (by simp) fun top s₁ step => ?_
  cases step
  rw [LawfulMonad.bind_assoc, ends_bind]
  refine wp_mono (ends_arrayCopy _ 0) fun names s₂ copied => ?_
  obtain ⟨length, same⟩ := copied
  rw [pure_bind, ends_bind, ends_unlock, same, ← length]
  exact fun _ => ⟨(length_shuffle rand names).trans length, rfl⟩

theorem Reading.Steady.read (steady : r.Steady fileNum s.store.fstack)
    (step : r.next cfg w fileNum rand s = .ok (r', s')) : r'.Steady fileNum s'.store.fstack := by
  cases r with
  | asked =>
      obtain ⟨⟨_, t⟩, ran, same⟩ := Outcome.andThen_eq_ok.mp step
      cases same
      have named : Ends False cfg w fileStackDefrag _ s := ends_fileStackDefrag_named
      exact named.run ran
  | compacted =>
      obtain ⟨⟨names, t⟩, ran, same⟩ := Outcome.andThen_eq_ok.mp step
      cases same
      have copies : Ends False cfg w (stackCopy rand) _ s := ends_stackCopy
      obtain ⟨length, stack⟩ := copies.run ran
      show Level fileNum names _ s'.store.fstack
      rw [Level, stack, length]
      exact ⟨fun _ => Nat.le_refl _, fun _ => Nat.le_refl _⟩
  | copied names =>
      cases step
      have level : Level fileNum names _ s.store.fstack := steady
      by_cases all : fileNum = 0
      · have top := Nat.le_antisymm (level.1 (.inl all)) (level.2 all)
        have asked : (if fileNum = 0 then (s.store.fstack.top : Int) else fileNum) = names.length := by
          rw [if_pos all, top]
        rw [asked]
        exact ⟨⟨fun more => absurd more (Int.lt_irrefl _), level.2⟩, List.nil_prefix, fun _ => rfl⟩
      · rw [if_neg all]
        exact ⟨⟨fun more => level.1 (.inr more), level.2⟩, List.nil_prefix, fun zero => absurd zero all⟩
  | testing names n visited =>
      obtain ⟨level, front, asked⟩ := steady
      rw [Reading.next] at step
      split at step
      · rename_i more
        cases step
        refine ⟨level, front, asked, ?_⟩
        by_cases few : (names.length : Int) < n
        · exact Nat.lt_of_lt_of_le more.2 (level.1 few)
        · exact Int.ofNat_lt.mp (Int.lt_of_lt_of_le more.1 (Int.not_lt.mp few))
      · rename_i stops
        cases step
        intro all
        have top := level.2 all
        rw [asked all] at stops
        exact front.eq_of_length_le (by omega)
  | looking names n visited =>
      obtain ⟨level, front, asked, inside⟩ := steady
      have here : names[visited.length]? = some names[visited.length] := List.getElem?_eq_getElem inside
      rw [Reading.next, here] at step
      obtain ⟨⟨found, t⟩, ran, same⟩ := Outcome.andThen_eq_ok.mp step
      cases same
      have still : Ends False cfg w (hashGetFile (.copy names[visited.length]) .src) _ s :=
        ends_hashGetFile_still _
      have stack : s'.store.fstack = s.store.fstack := still.run ran
      have next : visited ++ [names[visited.length]] <+: names := by
        obtain ⟨rest, rfl⟩ := front
        cases rest with
        | nil => simp at inside
        | cons name rest => simp
      rw [stack]
      exact ⟨level, next, asked⟩
  | ended names visited =>
      cases step
      exact steady

/-! ## The other workers -/

theorem FileStack.Named.push {σ σ' : FileStack} {name : Path} (named : ∀ i < σ.top, σ.Named i)
    (pushed : σ.push name = .ok σ') : ∀ i < σ'.top, σ'.Named i := by
  unfold FileStack.push at pushed
  split at pushed
  · rename_i room
    cases pushed
    intro i below
    rcases Nat.lt_succ_iff_lt_or_eq.mp below with lower | rfl
    · obtain ⟨other, cell⟩ := named i lower
      exact ⟨other, (List.getElem?_set_ne (Nat.ne_of_gt lower)).trans cell⟩
    · exact ⟨name, List.getElem?_set_self room⟩
  · cases pushed

theorem FileStack.push_top {σ σ' : FileStack} {name : Path} (pushed : σ.push name = .ok σ') :
    σ'.top = σ.top + 1 := by
  unfold FileStack.push at pushed
  split at pushed <;> cases pushed
  rfl

theorem FileStack.Named.taken {σ : FileStack} {path : Option Path} {i : Nat}
    (named : ∀ i < σ.top, σ.Named i) (notSelf : σ.foundSelf path = false) (below : i < σ.scanned path) :
    ∀ j < (σ.taken path i).top, (σ.taken path i).Named j := by
  have top : (σ.taken path i).top = i := by simp [FileStack.taken, notSelf]
  have scanned : σ.scanned path = σ.top := by simp [FileStack.scanned, notSelf]
  rw [scanned] at below
  intro j lower
  rw [top] at lower
  obtain ⟨name, cell⟩ := named j (Nat.lt_trans lower below)
  exact ⟨name, (List.getElem?_set_ne (Nat.ne_of_gt lower)).trans cell⟩

theorem StackCall.effect {v : W} (step : StackCall.run cfg v s c = .ok s') :
    (∃ str name, c = .fileStackAdd str ∧ s.store.fstack.push name = .ok s'.store.fstack) ∨
      ∃ str, c = .fileStackGetTop str ∧ (s'.store.fstack = s.store.fstack ∨
        ∃ path f, s.readStr str = .ok path ∧
          s.store.fstack.getTop (s.store.lookup cfg) path = .ok (f, s'.store.fstack)) := by
  cases c with
  | fileStackAdd str =>
      obtain ⟨⟨_, t⟩, ran, same⟩ := Outcome.andThen_eq_ok.mp step
      cases same
      have adds : Ends False cfg v (FileServer.fileStackAdd str) _ s := ends_fileStackAdd str
      obtain ⟨name, stack, pushed, rfl⟩ := adds.run ran
      exact .inl ⟨str, name, rfl, pushed⟩
  | fileStackGetTop str =>
      obtain ⟨⟨found, t⟩, ran, same⟩ := Outcome.andThen_eq_ok.mp step
      cases same
      have picks : Ends False cfg v (FileServer.fileStackGetTop str) (fun _ t =>
          t.store.fstack = s.store.fstack ∨ ∃ path f, s.readStr str = .ok path ∧
            s.store.fstack.getTop (s.store.lookup cfg) path = .ok (f, t.store.fstack)) s :=
        ends_fileStackGetTop (fun _ => .inl rfl) fun path f stack read chosen => .inr ⟨path, f, read, chosen⟩
      exact .inr ⟨str, rfl, picks.run ran⟩

theorem FileStack.getTop_top_le {search : Path → Outcome Fault (Option FileId)} {σ σ' : FileStack}
    {path : Option Path} {f : FileId} (chosen : σ.getTop search path = .ok (f, σ')) : σ'.top ≤ σ.top := by
  obtain ⟨-, i, scanned, rfl⟩ := getTop_eq_scan.mp chosen
  have below := (scanDown_found scanned).1
  rw [FileStack.scanned] at below
  show (if _ then _ else _) ≤ _
  by_cases self : σ.foundSelf path = true
  · rw [if_pos self]
  · rw [if_neg self] at below ⊢
    exact Nat.le_of_lt below

theorem Level.call {v : W} {names : List Path}
    (level : Level fileNum names (r.exceeds fileNum) s.store.fstack)
    (copied : r.copy = some names) (undisturbed : Undisturbed cfg fileNum r s c)
    (step : StackCall.run cfg v s c = .ok s') : Level fileNum names (r.exceeds fileNum) s'.store.fstack := by
  rcases StackCall.effect step with ⟨str, name, rfl, pushed⟩ | ⟨str, rfl, same | ⟨path, f, read, chosen⟩⟩
  · have top := FileStack.push_top pushed
    rw [Level, top]
    exact ⟨fun more => undisturbed names copied more, fun all => Nat.le_succ_of_le (level.2 all)⟩
  · rw [same]
    exact level
  · exact ⟨fun more => Nat.le_trans (FileStack.getTop_top_le chosen) (level.1 more),
      (undisturbed path f _ read chosen).2 names copied⟩

theorem Reading.Steady.call {v : W} (steady : r.Steady fileNum s.store.fstack)
    (undisturbed : Undisturbed cfg fileNum r s c) (step : StackCall.run cfg v s c = .ok s') :
    r.Steady fileNum s'.store.fstack := by
  cases r with
  | asked => trivial
  | compacted =>
      have named : ∀ i < s.store.fstack.top, s.store.fstack.Named i := steady
      rcases StackCall.effect step with ⟨str, name, rfl, pushed⟩ | ⟨str, rfl, same | ⟨path, f, read, chosen⟩⟩
      · exact FileStack.Named.push named pushed
      · rw [same]
        exact named
      · have notSelf := (undisturbed path f _ read chosen).1 rfl
        obtain ⟨-, i, scanned, same⟩ := FileStack.getTop_eq_scan.mp chosen
        rw [same]
        exact FileStack.Named.taken named notSelf (FileStack.scanDown_found scanned).1
  | copied names =>
      have level : Level fileNum names (Reading.exceeds fileNum (.copied names)) _ := steady
      exact level.call rfl undisturbed step
  | testing names n visited =>
      obtain ⟨level, rest⟩ := steady
      exact ⟨Level.call (r := .testing names n visited) level rfl undisturbed step, rest⟩
  | looking names n visited =>
      obtain ⟨level, rest⟩ := steady
      exact ⟨Level.call (r := .looking names n visited) level rfl undisturbed step, rest⟩
  | ended names visited => exact steady

theorem ReadRun.steady {start : Server W} (run : ReadRun cfg w fileNum rand (Undisturbed cfg fileNum) start r s) :
    r.Steady fileNum s.store.fstack := by
  induction run with
  | start => trivial
  | read before step ih => exact ih.read step
  | call before admitted step ih => exact ih.call admitted step
  | other before same ih =>
      rw [same]
      exact ih

/-- Undisturbed, a `fileNRead` copies names only, and its loop stays inside the copy and, if all names are
asked for, visits them all. -/
theorem snapshot_safe {start : Server W}
    (run : ReadRun cfg w fileNum rand (Undisturbed cfg fileNum) start r s) : r.Safe fileNum s.store.fstack :=
  run.steady.safe

/-! ## The handler alone -/

theorem run_plain_stack {α : Type} {p : Handler α} (plain : p.All (·.plain = true)) {a : α}
    (ran : (server W cfg).run w p s = .ok (a, s')) : s'.store.fstack = s.store.fstack := by
  induction p generalizing s with
  | ret b =>
      cases ran
      rfl
  | op o next ih =>
      obtain ⟨⟨x, t⟩, first, rest⟩ := Outcome.andThen_eq_ok.mp ran
      rcases exec_flat (Op.flat_of_plain plain.1) first with same | ⟨str, path, f, rfl, -⟩
      · rw [ih x (plain.2 x) rest, same]
      · cases plain.1

theorem plain_sendNamed (fd : Nat) (found : Option FileId) : (sendNamed cfg fd found).All (·.plain = true) := by
  cases found with
  | none => trivial
  | some f =>
      refine (plain_call rfl).bind fun _ => (plain_call rfl).bind fun file => ?_
      cases fileShortenName file.abspath with
      | none => exact plain_abort _
      | some nameSent => exact (plain_call rfl).bind fun _ => (plain_call rfl).bind fun _ =>
          (plain_call rfl).bind fun _ => plain_sendFile ..

variable {admits : Reading → Server W → StackCall → Prop} {start : Server W}

theorem readRun_loop {fd m : Nat} {names visited : List Path} {n : Int}
    (before : ReadRun cfg w fileNum rand admits start (.testing names n visited) s)
    (left : n.toNat = visited.length + m ∨ m = 0 ∧ n ≤ visited.length)
    (ran : (server W cfg).run w (fileNReadLoop cfg fd names m visited.length) s = .ok ((), s')) :
    ∃ visited, ReadRun cfg w fileNum rand admits start (.ended names visited) s' := by
  induction m generalizing s visited with
  | zero =>
      cases ran
      have stops : ¬((visited.length : Int) < n ∧ visited.length < s'.store.fstack.top) := fun more => by omega
      exact ⟨visited, before.read (if_neg stops)⟩
  | succ m ih =>
      have read : (server W cfg).run w (call (.stackTop .null)) s = .ok (s.store.fstack.top, s) := run_call _
      rw [fileNReadLoop_succ, Machine.run_bind_of read] at ran
      by_cases inside : visited.length < s.store.fstack.top
      · rw [if_pos inside] at ran
        have more : (visited.length : Int) < n ∧ visited.length < s.store.fstack.top := ⟨by omega, inside⟩
        have looking := before.read (if_pos more)
        cases here : names[visited.length]? with
        | none =>
            rw [here] at ran
            cases ran
        | some name =>
            rw [here] at ran
            dsimp only at ran
            rw [Machine.run_bind] at ran
            obtain ⟨⟨found, t⟩, looked, ran⟩ := Outcome.andThen_eq_ok.mp ran
            dsimp only at ran
            rw [Machine.run_bind] at ran
            obtain ⟨⟨_, t'⟩, sent, ran⟩ := Outcome.andThen_eq_ok.mp ran
            have step : Reading.next cfg w fileNum rand s (.looking names n visited) =
                .ok (.testing names n (visited ++ [name]), t) := by
              rw [Reading.next, here]
              dsimp only
              rw [looked]
              rfl
            have onward := (looking.read step).other (run_plain_stack (plain_sendNamed fd found) sent)
            have length : (visited ++ [name]).length = visited.length + 1 := List.length_append
            rw [← length] at ran
            exact ih onward (.inl (by omega)) ran
      · rw [if_neg inside] at ran
        cases ran
        exact ⟨visited, before.read (if_neg fun more => inside more.2)⟩

def numAsked (fileNum : Int) : Handler Int :=
  if fileNum = 0 then (do return ((← call (.stackTop .null)) : Int)) else pure fileNum

theorem run_numAsked : (server W cfg).run w (numAsked fileNum) s =
    .ok (if fileNum = 0 then (s.store.fstack.top : Int) else fileNum, s) := by
  unfold numAsked
  by_cases all : fileNum = 0
  · rw [if_pos all, if_pos all]
    rfl
  · rw [if_neg all, if_neg all]
    rfl

theorem fileNRead_steps (fd : Nat) : fileNRead cfg fd fileNum rand = (do
    fileStackDefrag
    let names ← stackCopy rand
    let n ← numAsked fileNum
    fileNReadLoop cfg fd names n.toNat 0
    writeNB fd (.int 0)) := by
  by_cases all : fileNum = 0 <;>
    simp only [fileNRead, stackCopy, numAsked, all, if_true, if_false, LawfulMonad.bind_assoc, pure_bind]

/-- A completed `fileNRead` takes these steps. -/
theorem readRun_of_run {fd : Nat} (ran : (server W cfg).run w (fileNRead cfg fd fileNum rand) s = .ok ((), s')) :
    ∃ names visited, ReadRun cfg w fileNum rand admits s (.ended names visited) s' := by
  rw [fileNRead_steps, Machine.run_bind] at ran
  obtain ⟨⟨_, s₁⟩, compacted, ran⟩ := Outcome.andThen_eq_ok.mp ran
  dsimp only at ran
  rw [Machine.run_bind] at ran
  obtain ⟨⟨names, s₂⟩, copied, ran⟩ := Outcome.andThen_eq_ok.mp ran
  dsimp only at ran
  rw [Machine.run_bind_of run_numAsked, Machine.run_bind] at ran
  obtain ⟨⟨_, s₃⟩, looped, sent⟩ := Outcome.andThen_eq_ok.mp ran
  have compacts : Reading.next cfg w fileNum rand s .asked = .ok (.compacted, s₁) := by
    rw [Reading.next, compacted]
    rfl
  have copies : Reading.next cfg w fileNum rand s₁ .compacted = .ok (.copied names, s₂) := by
    rw [Reading.next, copied]
    rfl
  have copied : ReadRun cfg w fileNum rand admits s (.copied names) s₂ := (ReadRun.start.read compacts).read copies
  obtain ⟨visited, run⟩ := readRun_loop (copied.read rfl) (by simp) looped
  have same : s'.store.fstack = s₃.store.fstack := run_plain_stack (plain_call rfl) sent
  exact ⟨names, visited, run.other same⟩

/-! ## Schedules -/

inductive Move where
  | read
  | call (c : StackCall)

/-- The moves in turn, up to the first that does not complete or is not allowed. The calls are those of
worker `v`. -/
def play (cfg : Config) (w v : W) (fileNum : Int) (rand : Nat → Nat) (allowed : Reading → StackCall → Bool) :
    List Move → Reading → Server W → Reading × Server W
  | [], r, s => (r, s)
  | .read :: moves, r, s => match r.next cfg w fileNum rand s with
      | .ok (r', s') => play cfg w v fileNum rand allowed moves r' s'
      | _ => (r, s)
  | .call c :: moves, r, s => match allowed r c, StackCall.run cfg v s c with
      | true, .ok s' => play cfg w v fileNum rand allowed moves r s'
      | _, _ => (r, s)

theorem ReadRun.play {v : W} {allowed : Reading → StackCall → Bool} {moves : List Move}
    (admitted : ∀ r s c, allowed r c = true → admits r s c)
    (before : ReadRun cfg w fileNum rand admits start r s) :
    ReadRun cfg w fileNum rand admits start (play cfg w v fileNum rand allowed moves r s).1
      (FileServer.play cfg w v fileNum rand allowed moves r s).2 := by
  induction moves generalizing r s with
  | nil => exact before
  | cons move moves ih =>
      cases move with
      | read =>
          rw [FileServer.play]
          split
          · rename_i step
            exact ih (before.read step)
          · exact before
      | call c =>
          rw [FileServer.play]
          split
          · rename_i allows step
            exact ih (before.call (admitted r s c allows) step)
          · exact before

/-- The requests in turn, up to the first that does not complete. -/
def serveAs (cfg : Config) (fuel fd : Nat) (w : W) : List Request → Server W → Server W
  | [], s => s
  | r :: rs, s => match (server W cfg).run w (handle cfg fuel fd r) s with
      | .ok (_, s') => serveAs cfg fuel fd w rs s'
      | _ => s

theorem Served.serveAs {fuel fd : Nat} {rs : List Request} (served : Served W cfg (fun _ _ => True) s)
    (wellFormed : ∀ r ∈ rs, r.WellFormed) :
    Served W cfg (fun _ _ => True) (serveAs cfg fuel fd w rs s) := by
  induction rs generalizing s with
  | nil => exact served
  | cons r rs ih =>
      rw [FileServer.serveAs]
      split
      · rename_i completed
        exact ih (served.request (wellFormed r (List.mem_cons_self ..)) trivial completed)
          fun r' mem => wellFormed r' (List.mem_cons_of_mem r mem)
      · exact served

end

/-- The first two of three files are on the stack. -/
def thirdToWrite : Server Bool :=
  serveAs threeFileConfig 5 0 false thirdFile (Server.initial Bool threeFileConfig)

def playThird (allowed : Reading → StackCall → Bool) (moves : List Move) : Reading × Server Bool :=
  play threeFileConfig true false 0 (fun _ => 0) allowed moves .asked thirdToWrite

theorem readRun_playThird (allowed : Reading → StackCall → Bool)
    (admits : Reading → Server Bool → StackCall → Prop) {r : Reading}
    (admitted : ∀ r s c, allowed r c = true → admits r s c) (moves : List Move)
    (here : (playThird allowed moves).1 = r) :
    ReadRun threeFileConfig true 0 (fun _ => 0) admits thirdToWrite r (playThird allowed moves).2 := by
  have run : ReadRun threeFileConfig true 0 (fun _ => 0) admits thirdToWrite
      (playThird allowed moves).1 (playThird allowed moves).2 := ReadRun.start.play admitted
  rw [here] at run
  exact run

/-- An eviction for the uppermost file leaves a hole to be copied, a push makes the loop ask for one name more
than was copied, and a pop lets it end before the last. -/
theorem snapshot_unsafe :
    Served Bool threeFileConfig (fun _ _ => True) thirdToWrite ∧
      (∃ s, ReadRun threeFileConfig true 0 (fun _ => 0) (fun _ _ _ => True) thirdToWrite .compacted s ∧
        ¬∀ i < s.store.fstack.top, s.store.fstack.Named i) ∧
      (∃ names n visited s, ReadRun threeFileConfig true 0 (fun _ => 0) (fun _ _ _ => True) thirdToWrite
        (.looking names n visited) s ∧ ¬visited.length < names.length) ∧
      ∃ names visited s, ReadRun threeFileConfig true 0 (fun _ => 0) (fun _ _ _ => True) thirdToWrite
        (.ended names visited) s ∧ visited ≠ names := by
  have anyRun {r : Reading} (moves : List Move) (here : (playThird (fun _ _ => true) moves).1 = r) :=
    readRun_playThird (fun _ _ => true) (fun _ _ _ => True) (fun _ _ _ _ => trivial) moves here
  refine ⟨Served.initial.serveAs (by simp [thirdFile, twoFiles, deletedFile, Request.WellFormed]), ?_, ?_, ?_⟩
  · refine ⟨_, anyRun [.read, .call (.fileStackGetTop (.buf [98]))] (by decide +kernel), fun named => ?_⟩
    have hole : (playThird (fun _ _ => true) [.read, .call (.fileStackGetTop (.buf [98]))]).2.store.fstack =
        ⟨5, 2, [none, some [98], none, none, none]⟩ := by decide +kernel
    rw [hole] at named
    obtain ⟨name, here⟩ := named 0 (by decide)
    cases here
  · exact ⟨[[98], [97]], 3, [[98], [97]], _, anyRun [.read, .read, .call (.fileStackAdd (.buf [99])), .read,
      .read, .read, .read, .read, .read] (by decide +kernel), by decide⟩
  · exact ⟨[[98], [97]], [[98]], _, anyRun [.read, .read, .read, .call (.fileStackGetTop (.buf [99])), .read,
      .read, .read] (by decide +kernel), by decide⟩

def pushesBefore : Reading → StackCall → Bool
  | .compacted, .fileStackAdd _ => true
  | _, _ => false

theorem snapshot_safe_example : ∃ s, ReadRun threeFileConfig true 0 (fun _ => 0) (Undisturbed threeFileConfig 0)
    thirdToWrite (.ended [[98], [99], [97]] [[98], [99], [97]]) s ∧
      (Reading.ended [[98], [99], [97]] [[98], [99], [97]]).Safe 0 s.store.fstack := by
  have admitted (r : Reading) (s : Server Bool) (c : StackCall) (allows : pushesBefore r c = true) :
      Undisturbed threeFileConfig 0 r s c := by
    unfold pushesBefore at allows
    split at allows
    · exact fun names copied => nomatch copied
    · cases allows
  have run := readRun_playThird pushesBefore (Undisturbed threeFileConfig 0) admitted
    [.read, .call (.fileStackAdd (.buf [99])), .read, .read, .read, .read, .read, .read, .read, .read, .read]
    (r := .ended [[98], [99], [97]] [[98], [99], [97]]) (by decide +kernel)
  exact ⟨_, run, snapshot_safe run⟩

end FileServer
