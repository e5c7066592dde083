import FileServer.Proof.Sequential.Directory
import FileServer.Proof.Sequential.ReadMany
import FileServer.Proof.Sequential.PageProgress

/-!
# Evictions after a compaction

What calls of `fileDeleteFIFO` evict, one after the other, with and without `fileStackDefrag` before them.
-/

namespace FileServer
open Program

/-- The files that calls of `fileDeleteFIFO` evict, one call after the other, until one fails. -/
def evictions {W : Type} (cfg : Config) (w : W) : List CStr → Server W → List FileId
  | [], _ => []
  | str :: args, s => match (server W cfg).run w (fileDeleteFIFO str) s with
      | .ok (_, s') => s.store.recorded.filter (fun f => f ∉ s'.store.recorded) ++ evictions cfg w args s'
      | _ => []

/-- `fileStackDefrag` returns, and whether it is called, alone or in `fileNRead`, does not change what later
calls of `fileDeleteFIFO` evict. -/
structure KeepsEvictions {W : Type} (cfg : Config) (w : W) (s : Server W) : Prop where
  returns : ∃ s', (server W cfg).run w fileStackDefrag s = .ok ((), s')
  defrag : ∀ s', (server W cfg).run w fileStackDefrag s = .ok ((), s') →
    ∀ args, evictions cfg w args s' = evictions cfg w args s
  nRead : ∀ fd n rand s', (server W cfg).run w (fileNRead cfg fd n rand) s = .ok ((), s') →
    ∀ args, evictions cfg w args s' = evictions cfg w args s

/-- The uppermost cells hold names that lead to records, all different and different from the names below
them; no name below them leads to a record, and no name off the stack that does is the first of its kind. -/
structure Store.Stacks (cfg : Config) (σ : Store) (lower : List (Option Path)) (names : List Path) : Prop where
  split : σ.fstack.stack.take σ.fstack.top = lower ++ names.map some
  known : ∀ name ∈ names, σ.knows cfg name = true
  unknown : ∀ name, some name ∈ lower → σ.knows cfg name = false
  distinct : names.Pairwise fun a b => strncmpEq a b = false
  apart : ∀ name ∈ names, ∀ other, some other ∈ lower → strncmpEq name other = false
  off : ∀ front name back, σ.fstack.stack.drop σ.fstack.top = front ++ some name :: back →
    σ.knows cfg name = true →
      ∃ other, some other ∈ σ.fstack.stack.take σ.fstack.top ++ front ∧ strncmpEq name other = true

section
variable {W : Type} {cfg : Config} {w : W} {s s' : Server W} {σ : Store} {str : CStr} {path : Option Path}
  {f : FileId} {d : {σ : Store // σ.Tidy}} {search : Path → Outcome Fault (Option FileId)}
  {stack : List (Option Path)} {n : Nat}

/-! ## The scan -/

theorem reverse_take_succ {cell : Option Path} (here : stack[n]? = some cell) :
    (stack.take (n + 1)).reverse = cell :: (stack.take n).reverse := by
  simp [List.take_add_one, here]

theorem pop_scanDown (finds : ∀ name, search name = .ok (d.1.leads cfg name)) (inside : n ≤ stack.length) :
    (Store.directory cfg).pop d (stack.take n).reverse = match FileStack.scanDown search stack n with
      | .ok (i, f) => some (f, (stack.take i).reverse)
      | _ => none := by
  induction n with
  | zero => rfl
  | succ n ih =>
      have below := ih (Nat.le_of_succ_le inside)
      have here : stack[n]? = some stack[n] := List.getElem?_eq_getElem inside
      rw [reverse_take_succ here, FileStack.scanDown, here]
      cases cell : stack[n] with
      | none => exact below
      | some name =>
          have leads : (Store.directory cfg).find d name = d.1.leads cfg name := rfl
          rw [Directory.pop, leads]
          dsimp only
          rw [finds, Outcome.andThen_ok]
          cases d.1.leads cfg name with
          | none => exact below
          | some f => rfl

theorem clear_scanDown (finds : ∀ name, search name = .ok (d.1.leads cfg name)) (inside : n ≤ stack.length) :
    (Store.directory cfg).clear d (stack.take n).reverse = match FileStack.scanDown search stack n with
      | .ok (i, f) => some (f, ((stack.set i none).take n).reverse)
      | _ => none := by
  induction n with
  | zero => rfl
  | succ n ih =>
      have below := ih (Nat.le_of_succ_le inside)
      have here : stack[n]? = some stack[n] := List.getElem?_eq_getElem inside
      have onward : ((Store.directory cfg).clear d (stack.take n).reverse).map
          (fun (f, rest) => (f, stack[n] :: rest)) = match FileStack.scanDown search stack n with
            | .ok (i, f) => some (f, ((stack.set i none).take (n + 1)).reverse)
            | _ => none := by
        rw [below]
        cases scanned : FileStack.scanDown search stack n with
        | ok found =>
            obtain ⟨i, f⟩ := found
            have lower := (FileStack.scanDown_found scanned).1
            have kept : (stack.set i none)[n]? = some stack[n] :=
              (List.getElem?_set_ne (Nat.ne_of_lt lower)).trans here
            exact congrArg (fun cells => some (f, cells)) (reverse_take_succ kept).symm
        | _ => rfl
      rw [reverse_take_succ here, FileStack.scanDown, here]
      cases cell : stack[n] with
      | none =>
          rw [cell] at onward
          exact onward
      | some name =>
          have leads : (Store.directory cfg).find d name = d.1.leads cfg name := rfl
          rw [cell] at onward
          rw [Directory.clear, leads]
          dsimp only
          rw [finds, Outcome.andThen_ok]
          cases d.1.leads cfg name with
          | none => exact onward
          | some f =>
              have cleared : (stack.set n none)[n]? = some none := List.getElem?_set_self inside
              dsimp only
              rw [reverse_take_succ cleared, List.take_set_of_le (Nat.le_refl n)]

theorem evict_getTop {cells : FileStack} (finds : ∀ name, search name = .ok (d.1.leads cfg name))
    (nonempty : cells.top ≠ 0) (inside : cells.top ≤ cells.stack.length) (path : Option Path) :
    (Store.directory cfg).evict d path (cells.stack.take cells.top).reverse =
      match cells.getTop search path with
        | .ok (f, cells') => some (f, (cells'.stack.take cells'.top).reverse)
        | _ => none := by
  have fromTop : (Store.directory cfg).pop d (cells.stack.take cells.top).reverse =
      match (FileStack.scanDown search cells.stack cells.top).andThen (fun found =>
          .ok (found.2, { cells with top := found.1, stack := cells.stack.set found.1 none })) with
        | .ok (f, cells') => some (f, (cells'.stack.take cells'.top).reverse)
        | _ => none := by
    rw [pop_scanDown finds inside]
    cases FileStack.scanDown search cells.stack cells.top with
    | ok found => simp [List.take_set_of_le]
    | _ => rfl
  cases path with
  | none => exact fromTop
  | some path =>
      obtain ⟨n, top⟩ := Nat.exists_eq_succ_of_ne_zero nonempty
      have below : n < cells.stack.length := Nat.lt_of_succ_le (top ▸ inside)
      have here : cells.stack[n]? = some cells.stack[n] := List.getElem?_eq_getElem below
      have last : cells.top - 1 = n := by
        rw [top]
        rfl
      have upper : (cells.stack.take cells.top).reverse = cells.stack[n] :: (cells.stack.take n).reverse := by
        rw [top]
        exact reverse_take_succ here
      rw [FileStack.getTop, last, here]
      rw [upper] at fromTop ⊢
      cases cell : cells.stack[n] with
      | none => rfl
      | some name =>
          rw [cell] at fromTop
          rw [Directory.evict]
          show (if strncmpEq name path = true then _ else _) = _
          dsimp only
          split
          · rw [clear_scanDown finds (Nat.le_of_lt below)]
            cases scanned : FileStack.scanDown search cells.stack n with
            | ok found =>
                obtain ⟨i, f⟩ := found
                have lower := (FileStack.scanDown_found scanned).1
                have kept : (cells.stack.set i none)[n]? = some (some name) := by
                  rw [List.getElem?_set_ne (Nat.ne_of_lt lower), here, cell]
                dsimp only [Outcome.andThen_ok]
                rw [Option.map_some, top, reverse_take_succ kept]
            | _ => rfl
          · exact fromTop

/-! ## Evictions -/

theorem Server.readStr_eq (s : Server W) (str : CStr) : s.store.string str = match s.readStr str with
    | .ok path => some path
    | _ => none := by
  cases str with
  | null => rfl
  | buf path => rfl
  | copy path =>
      by_cases short : path.length < posixPathMax <;> simp [Store.string, Server.readStr, short]
  | abspath f => cases found : s.store.files f <;> simp [Store.string, Server.readStr, Server.onFile, found]

theorem Store.string_files {σ' : Store} (files : σ'.files = σ.files) (str : CStr) :
    σ'.string str = σ.string str := by
  cases str <;> simp [Store.string, files]

/-- A `fileDeleteFIFO` that does not fail has found the stack empty, or evicts what the names on the stack
say. -/
theorem Idle.run_fileDeleteFIFO_cases (idle : Idle cfg s) (w : W) (str : CStr) :
    (s.store.fstack.top = 0 ∧ (server W cfg).run w (fileDeleteFIFO str) s = .ok (-1, s)) ∨
      s.store.fstack.top ≠ 0 ∧
      match (s.readStr str).andThen (s.store.fstack.getTop (s.store.lookup cfg)) with
        | .ok (f, cells) => ∃ s' file, (server W cfg).run w (fileDeleteFIFO str) s = .ok (0, s') ∧
            Removes cfg s s' f file ∧ s'.store.fstack = cells
        | _ => ∀ result, (server W cfg).run w (fileDeleteFIFO str) s ≠ .ok result := by
  have locked : (server W cfg).run w (lock .filestack) s = .ok ((), s.setOwner .filestack (some w)) :=
    run_lock (m := .filestack) trivial (idle.unlocked _)
  by_cases empty : s.store.fstack.top = 0
  · refine .inl ⟨empty, ?_⟩
    have none : (server W cfg).run w (fileStackGetTop str) (s.setOwner .filestack (some w)) =
        .ok (none, s.setOwner .filestack (some w)) := by
      have top : (server W cfg).run w (call (.stackTop str)) (s.setOwner .filestack (some w)) =
          .ok (s.store.fstack.top, s.setOwner .filestack (some w)) := run_call _
      unfold fileStackGetTop
      rw [Machine.run_bind_of top, if_pos empty]
      rfl
    unfold fileDeleteFIFO
    rw [Machine.run_bind_of locked, Machine.run_bind_of none]
    dsimp only
    rw [Machine.run_bind_of (run_unlock (m := .filestack) trivial),
      Server.setOwner_release s (some w) (idle.unlocked _)]
    rfl
  · refine .inr ⟨empty, ?_⟩
    obtain ⟨t, named⟩ : ∃ t, s.setOwner .filestack (some w) = t := ⟨_, rfl⟩
    have scan : (server W cfg).run w (fileStackGetTop str) t =
        ((s.readStr str).andThen (s.store.fstack.getTop (s.store.lookup cfg))).andThen fun chosen =>
          .ok (some chosen.1, t.setStack chosen.2) := by
      have free : (s.setOwner .filestack (some w)).owner .hashTB = none := by
        simpa using idle.unlocked .hashTB
      rw [← named, run_fileStackGetTop_nonempty free empty, readStr_setOwner]
      rfl
    have fails (stops : ∀ result, (s.readStr str).andThen (s.store.fstack.getTop (s.store.lookup cfg)) ≠
        .ok result) : ∀ result, (server W cfg).run w (fileDeleteFIFO str) s ≠ .ok result := by
      intro result ran
      unfold fileDeleteFIFO at ran
      rw [Machine.run_bind_of locked, named, Machine.run_bind, scan, Outcome.andThen_assoc] at ran
      obtain ⟨found, scanned, -⟩ := Outcome.andThen_eq_ok.mp ran
      exact stops found scanned
    cases chosen : (s.readStr str).andThen (s.store.fstack.getTop (s.store.lookup cfg)) with
    | ok found =>
        obtain ⟨f, cells⟩ := found
        obtain ⟨path, read, scanned⟩ := Outcome.andThen_eq_ok.mp chosen
        obtain ⟨name, searched⟩ := FileStack.getTop_found scanned
        have mem := Store.hashTbSearch_mem (Store.lookup_eq_ok.mp searched)
        obtain ⟨file, alive⟩ := idle.consistent.alive mem
        obtain ⟨found, σ, removed⟩ := idle.consistent.search_ok file.abspath .del
        have filled := (idle.consistent.shaped f file mem alive (by simp)).filled
        obtain ⟨s', ran, removes, left⟩ := run_fileDeleteFIFO (w := w) (fun m _ => idle.unlocked m) read
          empty scanned alive (Nat.le_of_eq filled.symm) removed
        exact ⟨s', file, ran, removes, left⟩
    | _ => exact fails (by simp [chosen])

theorem Removes.without {file : MemFile} (removes : Removes cfg s s' f file)
    (consistent : Consistent cfg none [] s.store) : s'.store.table = (s.store.without f).table ∧
      s'.store.files = (s.store.without f).files := by
  obtain ⟨found, removed⟩ := removes.removed
  obtain ⟨name, named⟩ := removes.named
  have same := consistent.del_same named removes.alive removed
  subst same
  have table := Store.hashTbSearch_del_without consistent.nodup removed
  refine ⟨table, ?_⟩
  rw [removes.result]
  rfl

theorem Removes.evicted {file : MemFile} (removes : Removes cfg s s' f file)
    (consistent : Consistent cfg none [] s.store) :
    s.store.recorded.filter (fun g => g ∉ s'.store.recorded) = [f] := by
  have perm := (removes.recorded consistent).filter fun g => g ∉ s'.store.recorded
  have gone := removes.victim_nmem consistent
  have rest : s'.store.recorded.filter (fun g => g ∉ s'.store.recorded) = [] :=
    List.filter_eq_nil_iff.mpr fun g mem => by simpa using mem
  rw [List.filter_cons_of_pos (by simpa using gone), rest] at perm
  exact List.perm_singleton.mp perm

theorem evictions_empty (idle : Idle cfg s) (empty : s.store.fstack.top = 0) (args : List CStr) :
    evictions cfg w args s = [] := by
  induction args with
  | nil => rfl
  | cons str args ih =>
      rcases idle.run_fileDeleteFIFO_cases w str with ⟨-, ran⟩ | ⟨wrong, -⟩
      · have none : s.store.recorded.filter (fun f => f ∉ s.store.recorded) = [] :=
          List.filter_eq_nil_iff.mpr fun f mem => by simpa using mem
        rw [evictions, ran]
        dsimp only
        rw [none, ih, List.nil_append]
      · exact absurd empty wrong

theorem evictions_eq (idle : Idle cfg s) (bounded : s.store.fstack.Bounded cfg)
    (table : d.1.table = s.store.table) (files : d.1.files = s.store.files) (args : List CStr) :
    evictions cfg w args s = (Store.directory cfg).evictions args d
      (s.store.fstack.stack.take s.store.fstack.top).reverse := by
  induction args generalizing s d with
  | nil => rfl
  | cons str args ih =>
      have inside : s.store.fstack.top ≤ s.store.fstack.stack.length := by
        rw [bounded.length]
        exact bounded.top
      have finds (name : Path) : s.store.lookup cfg name = .ok (d.1.leads cfg name) := by
        rw [← d.2.lookup name]
        exact (Store.lookup_paths table (fun f => by rw [files]) name).symm
      have read : (Store.directory cfg).read d str = s.store.string str := Store.string_files files str
      rcases idle.run_fileDeleteFIFO_cases w str with ⟨empty, -⟩ | ⟨nonempty, ran⟩
      · rw [evictions_empty idle empty, empty, Directory.evictions, read]
        cases s.store.string str with
        | none => rfl
        | some path => cases path <;> rfl
      · rw [evictions, Directory.evictions, read, Server.readStr_eq]
        cases reads : s.readStr str with
        | ok path =>
            rw [reads, Outcome.andThen_ok] at ran
            dsimp only
            rw [Option.bind_some, evict_getTop finds nonempty inside]
            cases chosen : s.store.fstack.getTop (s.store.lookup cfg) path with
            | ok found =>
                obtain ⟨f, cells⟩ := found
                rw [chosen] at ran
                obtain ⟨s', file, ran, removes, rfl⟩ := ran
                have consistent := idle.consistent
                obtain ⟨table', files'⟩ := removes.without consistent
                have idle' : Idle cfg s' :=
                  ⟨fun m => by rw [(removes.shrinks consistent).owner]; exact idle.unlocked m,
                    removes.consistent consistent (by simp)⟩
                have rest := ih (d := (Store.directory cfg).remove d f) idle' (bounded.getTop chosen)
                  (by rw [table']; exact congrArg (List.map _) table)
                  (by rw [files']; exact congrArg (Function.update · f none) files)
                rw [ran]
                dsimp only
                rw [removes.evicted consistent, rest, List.singleton_append]
            | _ =>
                rw [chosen] at ran
                cases stops : (server W cfg).run w (fileDeleteFIFO str) s with
                | ok result => exact absurd stops (ran result)
                | _ => rfl
        | _ =>
            rw [reads] at ran
            cases stops : (server W cfg).run w (fileDeleteFIFO str) s with
            | ok result => exact absurd stops (ran result)
            | _ => rfl

/-! ## Compaction -/

theorem Store.compact_eq (tidy : σ.Tidy) (cells : List (Option Path)) :
    σ.compact cfg cells = (Store.directory cfg).compact ⟨σ, tidy⟩ cells := by
  unfold Store.compact Directory.compact
  exact congrArg (List.filter · _) (funext tidy.knows)

theorem Store.length_compact (cfg : Config) (σ : Store) (cells : List (Option Path)) :
    (σ.compact cfg cells).length ≤ cells.length :=
  calc (σ.compact cfg cells).length
      _ ≤ ((cells.filterMap id).eraseDupsBy strncmpEq).length := List.length_filter_le ..
      _ ≤ (cells.filterMap id).length := (eraseDupsBy_sublist ..).length_le
      _ ≤ cells.length := List.length_filterMap_le ..

theorem Server.bounded_holding (bounded : s.store.fstack.Bounded cfg) :
    (s.store.fstack.holding (s.store.liveNames cfg)).Bounded cfg := by
  have short := s.store.length_compact cfg s.store.fstack.stack
  refine ⟨bounded.max, Nat.le_trans short (Nat.le_of_eq bounded.length), ?_⟩
  simp only [FileStack.holding, List.length_append, List.length_map, List.length_replicate]
  exact (Nat.add_sub_of_le short).trans bounded.length

theorem Idle.fileNRead_holding (idle : Idle cfg s) (bounded : s.store.fstack.Bounded cfg) {fd : Nat}
    {fileNum : Int} {rand : Nat → Nat} (ran : (server W cfg).run w (fileNRead cfg fd fileNum rand) s = .ok ((), s')) :
    ∃ msgs, s' = (s.setStack (s.store.fstack.holding (s.store.liveNames cfg))).sendAll fd msgs := by
  have started := idle.run_fileNReadStart bounded w fileNum rand rfl
  have idle' := (Quiet.setStack s (s.store.fstack.holding (s.store.liveNames cfg))).idle idle
  rw [fileNRead_split, Machine.run_bind_of started] at ran
  dsimp only at ran
  rw [Machine.run_bind, idle'.run_fileNReadLoop w fd _ _ 0 (length_shuffle rand _).symm] at ran
  obtain ⟨⟨_, t⟩, looped, ended⟩ := Outcome.andThen_eq_ok.mp ran
  obtain ⟨msgs, -, same⟩ := Outcome.andThen_eq_ok.mp looped
  cases same
  cases ended
  exact ⟨msgs ++ [.int 0], by rw [← Server.sendAll_sendAll]; rfl⟩

theorem evictions_holding {s : Server W} (s' : Server W) (w : W) (idle : Idle cfg s') (bounded : s.store.fstack.Bounded cfg)
    (tidy : s.store.Tidy) (table : s'.store.table = s.store.table) (files : s'.store.files = s.store.files)
    (compacted : s'.store.fstack = s.store.fstack.holding (s.store.liveNames cfg)) (args : List CStr) :
    evictions cfg w args s' = (Store.directory cfg).evictions args ⟨s.store, tidy⟩
      (((Store.directory cfg).compact ⟨s.store, tidy⟩ (s.store.fstack.stack.take s.store.fstack.top ++
        s.store.fstack.stack.drop s.store.fstack.top)).map some).reverse := by
  have bounded' : s'.store.fstack.Bounded cfg := by
    rw [compacted]
    exact Server.bounded_holding bounded
  have cells : s'.store.fstack.stack.take s'.store.fstack.top = (s.store.liveNames cfg).map some := by
    rw [compacted]
    simp [FileStack.holding]
  rw [evictions_eq (d := ⟨s.store, tidy⟩) idle bounded' table.symm files.symm, cells,
    List.take_append_drop, ← Store.compact_eq tidy]
  rfl

theorem Store.stacks_iff (tidy : σ.Tidy) {lower : List (Option Path)} {names : List Path} :
    σ.Stacks cfg lower names ↔ (Store.directory cfg).Packed ⟨σ, tidy⟩ (σ.fstack.stack.take σ.fstack.top)
      (σ.fstack.stack.drop σ.fstack.top) lower names := by
  have known (name : Path) : σ.knows cfg name = true ↔ ∃ f, (Store.directory cfg).find ⟨σ, tidy⟩ name = some f := by
    rw [tidy.knows, Option.isSome_iff_exists]
    rfl
  have unknown (name : Path) : σ.knows cfg name = false ↔ (Store.directory cfg).find ⟨σ, tidy⟩ name = none := by
    rw [tidy.knows, Option.isSome_eq_false_iff, Option.isNone_iff_eq_none]
    rfl
  constructor
  · intro standing
    exact ⟨standing.split, fun name mem => (unknown name).mp (standing.unknown name mem),
      fun name mem => (known name).mp (standing.known name mem), standing.distinct, standing.apart,
      fun front name back split found => standing.off front name back split ((known name).mpr found)⟩
  · intro packed
    exact ⟨packed.split, fun name mem => (known name).mpr (packed.live name mem),
      fun name mem => (unknown name).mpr (packed.dead name mem), packed.distinct, packed.apart,
      fun front name back split found => packed.covered front name back split ((known name).mp found)⟩

/-- A compaction keeps the evictions exactly if the names that lead to records are on top of the stack, each
once. -/
theorem keeps_evictions (served : Served W cfg (fun _ _ => True) s) (w : W) :
    KeepsEvictions cfg w s ↔ ∃ lower names, s.store.Stacks cfg lower names := by
  have idle := served.idle
  have bounded := served.bounded
  have tidy := idle.consistent.tidy
  have total (name : Path) : ∃ r, s.store.lookup cfg name = .ok r := ⟨_, tidy.lookup name⟩
  obtain ⟨t, reached⟩ : ∃ t, s.setStack (s.store.fstack.holding (s.store.liveNames cfg)) = t := ⟨_, rfl⟩
  have idle' : Idle cfg t := by
    rw [← reached]
    exact (Quiet.setStack s _).idle idle
  have ran : (server W cfg).run w fileStackDefrag s = .ok ((), t) := by
    rw [← reached]
    exact run_fileStackDefrag w total (idle.unlocked _) (idle.unlocked _) bounded.length
  have after (args : List CStr) := evictions_holding t w idle' bounded tidy (by rw [← reached]; rfl)
    (by rw [← reached]; rfl) (by rw [← reached]; rfl) args
  have before (args : List CStr) := evictions_eq (w := w) (d := ⟨s.store, tidy⟩) idle bounded rfl rfl args
  have packed := Directory.evictions_compact_iff (Store.directory_lawful cfg) ⟨s.store, tidy⟩
    (s.store.fstack.stack.take s.store.fstack.top) (s.store.fstack.stack.drop s.store.fstack.top)
  simp only [Store.stacks_iff tidy, ← packed, ← before, ← after]
  constructor
  · intro keeps args
    exact (keeps.defrag t ran args).symm
  · intro equal
    refine ⟨⟨t, ran⟩, fun s' ends args => ?_, fun fd n rand s' ends args => ?_⟩
    · rw [ran] at ends
      cases ends
      exact (equal args).symm
    · obtain ⟨msgs, rfl⟩ := idle.fileNRead_holding bounded ends
      rw [reached]
      have sent := evictions_holding (t.sendAll fd msgs) w ((Quiet.sendAll t fd msgs).idle idle')
        bounded tidy (by rw [← reached]; rfl) (by rw [← reached]; rfl) (by rw [← reached]; rfl) args
      rw [sent, ← after, equal]

end

def threeFileConfig : Config :=
  { smallConfig with fileMax := 3, fileMax_pos := by decide, fileMax_lt := by decide }

/-- Two files are written, and then the first is deleted and written anew. -/
def rewritten : List Request := twoFiles ++ [.fileDelete [97] 7, .fileInit [97], .fileOpen [97] 7,
  .fileWrite [97] 7 4 [1, 2, 3, 4]]

/-- The compaction keeps the old name of the new file, and the other file, the oldest by now, is evicted
first instead of last. -/
theorem loses_eviction_order :
    Served Unit threeFileConfig (fun _ _ => True) (reached threeFileConfig 5 rewritten) ∧
      evictions threeFileConfig () [.null] (reached threeFileConfig 5 rewritten) = [2] ∧
      ¬KeepsEvictions threeFileConfig () (reached threeFileConfig 5 rewritten) := by
  refine ⟨served_reached (by simp [rewritten, twoFiles, deletedFile, Request.WellFormed])
    (fun _ _ _ => trivial) (by decide +kernel), by decide +kernel, fun keeps => ?_⟩
  obtain ⟨s', ran⟩ := keeps.returns
  have other : ((server Unit threeFileConfig).run () fileStackDefrag (reached threeFileConfig 5 rewritten)).okAnd
      (fun result => evictions threeFileConfig () [.null] result.2 = [1]) = true := by
    decide +kernel
  have before : evictions threeFileConfig () [.null] (reached threeFileConfig 5 rewritten) = [2] := by
    decide +kernel
  rw [ran] at other
  have after : evictions threeFileConfig () [.null] s' = [1] := of_decide_eq_true other
  have same := keeps.defrag s' ran [.null]
  rw [before, after] at same
  cases same

theorem keeps_evictions_example : KeepsEvictions smallConfig () (reached smallConfig 5 twoFiles) := by
  have stack : (reached smallConfig 5 twoFiles).store.fstack =
      ⟨3, 2, [some [97], some [98], none]⟩ := by decide +kernel
  refine (keeps_evictions (served_reached (by simp [twoFiles, deletedFile, Request.WellFormed])
    (fun _ _ _ => trivial) (by decide +kernel)) ()).mpr ⟨[], [[97], [98]], ?_⟩
  refine ⟨by rw [stack]; rfl, ?_, by simp, by decide, by simp, fun front name back split => ?_⟩
  · simp only [List.forall_mem_cons]
    exact ⟨by decide +kernel, by decide +kernel, by simp⟩
  · rw [stack] at split
    have cells := congrArg (some name ∈ ·) split
    simp at cells

end FileServer
