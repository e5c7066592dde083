import FileServer.Proof.Sequential.StackBounds
import FileServer.NameCompaction

/-!
# Compaction

The stack that `fileStackDefrag` leaves, exactly.
-/

namespace FileServer
open Program

/-- The name leads to a record of the hash table. -/
def Store.knows (cfg : Config) (σ : Store) (name : Path) : Bool :=
  (σ.lookup cfg name).okAnd Option.isSome

def withoutCopies (name : Path) (cells : List (Option Path)) : List (Option Path) :=
  cells.map fun cell => if cell.any (strncmpEq name) then none else cell

def Server.setCells {W : Type} (s : Server W) (cells : List (Option Path)) : Server W :=
  s.setStack { s.store.fstack with stack := cells }

/-- The names in the cells, each taken once, that lead to a record. -/
def Store.compact (cfg : Config) (σ : Store) (cells : List (Option Path)) : List Path :=
  ((cells.filterMap id).eraseDupsBy strncmpEq).filter (σ.knows cfg)

/-- The names of recorded files on the stack, from the lowest cell up. -/
def Store.liveNames (cfg : Config) (σ : Store) : List Path := σ.compact cfg σ.fstack.stack

def FileStack.holding (s : FileStack) (names : List Path) : FileStack :=
  { s with
    top := names.length
    stack := names.map some ++ List.replicate (s.stack.length - names.length) none }

section
variable {W : Type} {cfg : Config} {s : Server W} {σ : Store} {name : Path}
  {cells front : List (Option Path)} {cell : Option Path}

/-! ## The names -/

theorem strncmpEq_comm (a b : Path) : strncmpEq a b = strncmpEq b a := by
  simp [strncmpEq, Bool.beq_comm]

theorem Store.knows_iff : σ.knows cfg name = true ↔ ∃ f, σ.lookup cfg name = .ok (some f) := by
  simp [knows, Outcome.okAnd_iff, Option.isSome_iff_exists]

theorem Store.compact_none : σ.compact cfg (none :: cells) = σ.compact cfg cells := rfl

theorem filterMap_withoutCopies (name : Path) (cells : List (Option Path)) :
    (withoutCopies name cells).filterMap id =
      (cells.filterMap id).filter fun other => strncmpEq other name = false := by
  unfold withoutCopies
  induction cells with
  | nil => rfl
  | cons cell cells ih =>
      cases cell with
      | none => exact ih
      | some other =>
          cases same : strncmpEq name other with
          | false =>
              simp only [List.map_cons, Option.any_some, same, List.filterMap_cons, id, List.filter_cons,
                strncmpEq_comm other]
              simpa using ih
          | true =>
              simp only [List.map_cons, Option.any_some, same, List.filterMap_cons, id, List.filter_cons,
                strncmpEq_comm other]
              simpa using ih

theorem Store.compact_some (name : Path) (cells : List (Option Path)) :
    σ.compact cfg (some name :: cells) =
      if σ.knows cfg name then name :: σ.compact cfg (withoutCopies name cells)
      else σ.compact cfg (withoutCopies name cells) := by
  simp only [compact, filterMap_withoutCopies]
  rw [List.filterMap_cons_some (by rfl), List.eraseDupsBy_cons, List.filter_cons]

/-! ## The cells -/

namespace Server

@[simp] theorem setCells_setCells (s : Server W) (cells cells' : List (Option Path)) :
    (s.setCells cells).setCells cells' = s.setCells cells' := rfl
@[simp] theorem setCells_stack (s : Server W) (cells : List (Option Path)) :
    (s.setCells cells).store.fstack.stack = cells := rfl
@[simp] theorem setCells_owner (s : Server W) (cells : List (Option Path)) :
    (s.setCells cells).owner = s.owner := rfl
@[simp] theorem lookup_setStack (s : Server W) (stack : FileStack) (name : Path) :
    (s.setStack stack).store.lookup cfg name = s.store.lookup cfg name :=
  Store.lookup_paths (show (s.setStack stack).store.table = s.store.table from rfl) (fun _ => rfl) name
@[simp] theorem lookup_setCells (s : Server W) (cells : List (Option Path)) (name : Path) :
    (s.setCells cells).store.lookup cfg name = s.store.lookup cfg name :=
  lookup_setStack ..
@[simp] theorem compact_setCells (s : Server W) (cells cells' : List (Option Path)) :
    (s.setCells cells).store.compact cfg cells' = s.store.compact cfg cells' := by
  unfold Store.compact Store.knows
  simp

end Server

theorem run_stackDedup_none {i : Nat} (w : W) (here : s.store.fstack.stack[i]? = some none) :
    (server W cfg).run w (call (.stackDedup i)) s = .ok (none, s) := by
  rw [run_call]
  simp only [Server.exec, here]

theorem run_stackDedup (cfg : Config) (w : W) (stack : s.store.fstack.stack = front ++ some name :: cells) :
    (server W cfg).run w (call (.stackDedup front.length)) s =
      .ok (some name, s.setCells (front ++ some name :: withoutCopies name cells)) := by
  have here : s.store.fstack.stack[front.length]? = some (some name) := by simp [stack]
  have upper : (front ++ some name :: cells).drop (front.length + 1) = cells := by
    simp [List.drop_append]
  have lower : (front ++ some name :: cells).take (front.length + 1) = front ++ [some name] := by
    simp [List.take_append, List.take_of_length_le]
  have cleaned : s.store.fstack.dedup front.length name =
      { s.store.fstack with stack := front ++ some name :: withoutCopies name cells } := by
    simp only [FileStack.dedup, stack, upper, lower, List.append_assoc]
    rfl
  rw [run_call]
  simp only [Server.exec, here, cleaned]
  rfl

theorem run_stackMove (cfg : Config) (w : W) (gap : Nat)
    (stack : s.store.fstack.stack = front ++ (List.replicate gap none ++ cell :: cells)) :
    (server W cfg).run w (call (.stackMove front.length (front.length + gap))) s =
      .ok ((), s.setCells (front ++ cell :: (List.replicate gap none ++ cells))) := by
  have moved : s.store.fstack.moveCell front.length (front.length + gap) =
      { s.store.fstack with stack := front ++ cell :: (List.replicate gap none ++ cells) } := by
    cases gap with
    | zero => simp [FileStack.moveCell, stack]
    | succ gap =>
        have slide : List.replicate gap none ++ none :: cells = List.replicate (gap + 1) none ++ cells := by
          simp [List.replicate_succ']
        rw [← slide]
        simp [FileStack.moveCell, stack, List.replicate_succ]
  rw [run_call]
  simp only [Server.exec, moved]
  rfl

theorem run_stackClear (cfg : Config) (w : W) (stack : s.store.fstack.stack = front ++ cell :: cells) :
    (server W cfg).run w (call (.stackClear front.length)) s =
      .ok ((), s.setCells (front ++ none :: cells)) := by
  have cleared : s.store.fstack.clearCell front.length =
      { s.store.fstack with stack := front ++ none :: cells } := by
    simp [FileStack.clearCell, stack]
  rw [run_call]
  simp only [Server.exec, cleared]
  rfl

/-! ## The loop -/

theorem run_hashGetFile_src {found : Option FileId} (cfg : Config) (w : W) (free : s.owner .hashTB = none)
    (searched : s.store.lookup cfg name = .ok found) :
    (server W cfg).run w (hashGetFile (.buf name) .src) s = .ok (found, s) :=
  run_hashGetFile free rfl (Store.lookup_eq_ok.mp searched)

theorem run_fileStackDefragLoop_some (w : W) (n gap : Nat) (kept : List Path)
    (total : ∀ name, ∃ r, s.store.lookup cfg name = .ok r) (free : s.owner .hashTB = none)
    (stack : s.store.fstack.stack = kept.map some ++ (List.replicate gap none ++ some name :: cells)) :
    (server W cfg).run w (fileStackDefragLoop (n + 1) (kept.length + gap) kept.length) s =
      if s.store.knows cfg name then
        (server W cfg).run w (fileStackDefragLoop n (kept.length + gap + 1) (kept.length + 1))
          (s.setCells ((kept ++ [name]).map some ++ (List.replicate gap none ++ withoutCopies name cells)))
      else
        (server W cfg).run w (fileStackDefragLoop n (kept.length + gap + 1) kept.length)
          (s.setCells (kept.map some ++
            (List.replicate gap none ++ none :: withoutCopies name cells))) := by
  have position : (kept.map some ++ List.replicate gap none).length = kept.length + gap := by simp
  have read := run_stackDedup cfg w (stack.trans (List.append_assoc ..).symm)
  obtain ⟨found, searched⟩ := total name
  have looked := run_hashGetFile_src cfg (s := s.setCells ((kept.map some ++
    List.replicate gap none) ++ some name :: withoutCopies name cells)) w free
    ((Server.lookup_setCells ..).trans searched)
  rw [position] at read
  rw [fileStackDefragLoop, Machine.run_bind_of read]
  dsimp only
  rw [Machine.run_bind_of looked]
  cases found with
  | none =>
      have dead : ¬s.store.knows cfg name = true := by simp [Store.knows, searched, Outcome.okAnd]
      have cleared := run_stackClear cfg w (Server.setCells_stack s
        ((kept.map some ++ List.replicate gap none) ++ some name :: withoutCopies name cells))
      rw [position] at cleared
      rw [Machine.run_bind_of cleared, if_neg dead, Server.setCells_setCells, List.append_assoc]
  | some f =>
      have live : s.store.knows cfg name = true := by simp [Store.knows, searched, Outcome.okAnd]
      have moved := run_stackMove cfg w gap (Server.setCells_stack s
        (kept.map some ++ (List.replicate gap none ++ some name :: withoutCopies name cells)))
      rw [List.length_map] at moved
      rw [List.append_assoc, Machine.run_bind_of moved, if_pos live, List.map_append, List.append_assoc]
      rfl

theorem run_fileStackDefragLoop (cfg : Config) (w : W) (n gap : Nat) (kept : List Path)
    (total : ∀ name, ∃ r, s.store.lookup cfg name = .ok r) (free : s.owner .hashTB = none)
    (left : cells.length = n)
    (stack : s.store.fstack.stack = kept.map some ++ (List.replicate gap none ++ cells)) :
    (server W cfg).run w (fileStackDefragLoop n (kept.length + gap) kept.length) s =
      .ok ((kept ++ s.store.compact cfg cells).length, s.setCells
        ((kept ++ s.store.compact cfg cells).map some ++
          List.replicate (gap + n - (s.store.compact cfg cells).length) none)) := by
  induction n generalizing s gap kept cells with
  | zero =>
      obtain rfl := List.length_eq_zero_iff.mp left
      rw [List.append_nil] at stack
      simp [fileStackDefragLoop, Store.compact, Server.setCells, Server.setStack, ← stack]
  | succ n ih =>
      obtain ⟨cell, cells, rfl⟩ := List.exists_cons_of_length_eq_add_one left
      have remaining : cells.length = n := Nat.succ.inj left
      have wider (cells : List (Option Path)) : List.replicate gap none ++ none :: cells =
          List.replicate (gap + 1) none ++ cells := by
        simp [List.replicate_succ']
      have count : gap + (n + 1) = gap + 1 + n := Nat.add_right_comm gap n 1
      cases cell with
      | none =>
          have hole : s.store.fstack.stack[kept.length + gap]? = some none := by simp [stack]
          rw [wider] at stack
          rw [fileStackDefragLoop, Machine.run_bind_of (run_stackDedup_none w hole), Store.compact_none,
            count]
          exact ih (gap + 1) kept total free remaining stack
      | some name =>
          have short : (withoutCopies name cells).length = n := by simp [withoutCopies, remaining]
          rw [run_fileStackDefragLoop_some w n gap kept total free stack, Store.compact_some]
          by_cases live : s.store.knows cfg name = true
          · have rest := ih (s := s.setCells ((kept ++ [name]).map some ++ (List.replicate gap none ++
              withoutCopies name cells))) gap (kept ++ [name]) (by simpa using total) free short rfl
            have spare : gap + (n + 1) - ((s.store.compact cfg (withoutCopies name cells)).length + 1) =
                gap + n - (s.store.compact cfg (withoutCopies name cells)).length :=
              Nat.add_sub_add_right (gap + n) 1 _
            rw [if_pos live, if_pos live]
            simpa [Nat.add_right_comm, spare] using rest
          · have rest := ih (s := s.setCells (kept.map some ++ (List.replicate gap none ++ none ::
              withoutCopies name cells))) (gap + 1) kept (by simpa using total) free short (by simp [wider])
            rw [if_neg live, if_neg live, count]
            simpa [Nat.add_assoc] using rest

theorem run_fileStackDefrag (w : W) (total : ∀ name, ∃ r, s.store.lookup cfg name = .ok r)
    (unowned : s.owner .filestack = none) (free : s.owner .hashTB = none)
    (full : s.store.fstack.stack.length = s.store.fstack.max) :
    (server W cfg).run w fileStackDefrag s =
      .ok ((), s.setStack (s.store.fstack.holding (s.store.liveNames cfg))) := by
  obtain ⟨t, locked⟩ : ∃ t, s.setOwner .filestack (some w) = t := ⟨_, rfl⟩
  have total' : ∀ name, ∃ r, t.store.lookup cfg name = .ok r := by
    rw [← locked]
    exact total
  have free' : t.owner .hashTB = none := by
    rw [← locked]
    exact free
  have scanned : (server W cfg).run w (fileStackDefragLoop t.store.fstack.stack.length 0 0) t =
      .ok ((t.store.liveNames cfg).length, t.setCells ((t.store.liveNames cfg).map some ++
        List.replicate (t.store.fstack.stack.length - (t.store.liveNames cfg).length) none)) := by
    have ends := run_fileStackDefragLoop cfg w t.store.fstack.stack.length 0 [] total' free' rfl rfl
    rwa [Nat.zero_add] at ends
  have max : (server W cfg).run w (call .stackMax) t = .ok (t.store.fstack.stack.length, t) := by
    rw [run_call, ← locked]
    exact congrArg (fun max => Outcome.ok (max, s.setOwner .filestack (some w))) full.symm
  have released : (t.setStack (t.store.fstack.holding (t.store.liveNames cfg))).setOwner .filestack none =
      s.setStack (s.store.fstack.holding (s.store.liveNames cfg)) := by
    rw [← locked]
    exact Server.setOwner_release (s.setStack _) (some w) unowned
  unfold fileStackDefrag
  rw [Machine.run_bind_of (run_lock (m := .filestack) trivial unowned), locked, Machine.run_bind_of max,
    Machine.run_bind_of scanned, ← released]
  rfl

/-! ## The compacted names -/

theorem liveNames_distinct (σ : Store) :
    (σ.liveNames cfg).Pairwise fun a b => strncmpEq a b = false := by
  refine ((pairwise_eraseDupsBy strncmpEq _).filter _).imp fun {a b} other => ?_
  rw [strncmpEq_comm]
  exact other

theorem liveNames_known (mem : name ∈ σ.liveNames cfg) : ∃ f, σ.lookup cfg name = .ok (some f) :=
  Store.knows_iff.mp (List.mem_filter.mp mem).2

end

end FileServer
