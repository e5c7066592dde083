import FileServer.Proof.Sequential.Checks
import FileServer.Proof.Sequential.Growing
import Mathlib.Data.List.Pairwise

/-!
# What a completed request has done

For each handler, started between two requests: the records it may have changed, how, and that all
the others are as they were or gone.
-/

namespace FileServer
open Program

def Kept (σ σ' : Store) (g : FileId) : Prop :=
  σ'.files g = σ.files g ∧ ∀ page ∈ pagesOf σ.files g, σ'.memPtr page = σ.memPtr page

def MemFile.grown (file : MemFile) (n : Nat) (pages : List Nat) : MemFile :=
  { file with
    size := file.size + n, pagesN := file.pagesN + pages.length, pages := file.pages ++ pages }

/-- `f` went from `file` to `file'`, with `data` written from byte `k` of its pages on. -/
structure Rewrote {W : Type} (cfg : Config) (f : FileId) (file file' : MemFile) (k : Nat)
    (data : List UInt8) (s s' : Server W) : Prop where
  idle : Idle cfg s'
  recorded : f ∈ s'.store.recorded
  found : s'.store.files f = some file'
  others : ∀ g ∈ s'.store.recorded, g ∈ s.store.recorded ∧ (g ≠ f → Kept s.store s'.store g)
  image : file'.pages.flatMap s'.store.memPtr =
    overwrite (file'.pages.flatMap s.store.memPtr) k data

section
variable {W : Type} {strict : Prop} {cfg : Config} {w : W} {s s' t u : Server W} {f g : FileId}
  {file file' file'' : MemFile} {busy : Option FileId} {extra : List Nat}

/-! ## Ledgers -/

theorem Consistent.owned_mem {σ : Store} {page : Nat} (mem : f ∈ σ.recorded)
    (found : σ.files f = some file) (isPage : page ∈ file.pages) : page ∈ σ.ownedPages :=
  List.mem_flatMap.mpr ⟨f, mem, by rwa [pagesOf_some found]⟩

theorem Consistent.inMemory {σ : Store} (consistent : Consistent cfg busy extra σ)
    (mem : f ∈ σ.recorded) (found : σ.files f = some file) :
    ∀ page ∈ file.pages, page < σ.pageN := by
  intro page isPage
  have owned := List.mem_append_right (σ.pages ++ extra) (owned_mem mem found isPage)
  exact List.mem_range.mp (consistent.ledger.mem_iff.mp owned)

theorem Consistent.pages_nodup {σ : Store} (consistent : Consistent cfg busy extra σ)
    (mem : f ∈ σ.recorded) (found : σ.files f = some file) : file.pages.Nodup := by
  have owned := (List.nodup_append.mp consistent.ledger_nodup).2.1
  have each := (List.nodup_flatMap.mp owned).1 f mem
  rwa [pagesOf_some found] at each

theorem Consistent.disjoint {σ : Store} (consistent : Consistent cfg busy extra σ)
    (mem : f ∈ σ.recorded) (mem' : g ∈ σ.recorded) (ne : g ≠ f) {page : Nat}
    (isPage : page ∈ pagesOf σ.files g) : page ∉ pagesOf σ.files f := by
  have owned := (List.nodup_append.mp consistent.ledger_nodup).2.1
  have apart := (List.nodup_flatMap.mp owned).2
  have symmetric : Std.Symm (Function.onFun List.Disjoint (pagesOf σ.files)) :=
    ⟨fun _ _ h _ i j => h j i⟩
  exact fun isPage' => apart.forall mem' mem ne isPage isPage'

theorem Consistent.writable {σ : Server W} (consistent : Consistent cfg busy extra σ.store)
    (mem : f ∈ σ.store.recorded) (found : σ.store.files f = some file) : Writable cfg σ f file where
  found := found
  nodup := consistent.pages_nodup mem found
  inMemory := consistent.inMemory mem found
  sized := consistent.buffers

theorem Consistent.setMem {mem : Nat → List UInt8} (consistent : Consistent cfg busy extra s.store)
    (sized : ∀ page, (mem page).length = cfg.pageSize) :
    Consistent cfg busy extra (s.setMem mem).store :=
  { consistent with buffers := sized }

/-! ## `fileWrite` and `fileAppend` -/

theorem Idle.locked (idle : Idle cfg s) (w : W) (fd : Nat) (msg : Msg) (f : FileId) :
    Consistent cfg none [] ((s.setOwner (.file f) (some w)).send fd msg).store ∧
      ((s.setOwner (.file f) (some w)).send fd msg).owner (.file f) ≠ none :=
  ⟨idle.consistent, by simp⟩

theorem Grew.rewrote {k fd : Nat} {msg : Msg} {data : List UInt8} {mem : Nat → List UInt8}
    (idle : Idle cfg s)
    (grew : Grew cfg f file' ((s.setOwner (.file f) (some w)).send fd msg) t)
    (isRecorded : f ∈ s.store.recorded)
    (wrote : Wrote cfg.pageSize file'.pages k data t.store.memPtr mem)
    (samePages : file''.pages = file'.pages) (samePath : file''.abspath = file'.abspath)
    (shaped : file''.Shaped cfg)
    (owner : s'.owner = Function.update t.owner (.file f) none)
    (result : s'.store = { ((t.setMem mem).setFile f (some file'')).store with
      fstack := s'.store.fstack }) :
    Rewrote cfg f file file'' k data s s' := by
  have shrinks := grew.shrinks
  have isRecorded' : f ∈ t.store.recorded := shrinks.held f isRecorded (by simp)
  have files : s'.store.files = Function.update t.store.files f (some file'') := by rw [result]; rfl
  have recorded : s'.store.recorded = t.store.recorded := by rw [result]; rfl
  have memPtr : s'.store.memPtr = mem := by rw [result]; rfl
  have found : s'.store.files f = some file'' := by rw [files, Function.update_self]
  have consistent : Consistent cfg (some f) [] ((t.setMem mem).setFile f (some file'')).store := by
    refine (grew.consistent.setMem wrote.sized).setFile isRecorded' grew.found samePath ?_
      fun g same => (Option.some.inj same).symm
    rw [samePages]
  refine ⟨⟨fun m => ?_, ?_⟩, ?_, found, fun g isIn => ?_, ?_⟩
  · rw [owner, shrinks.owner]
    by_cases same : m = .file f
    · rw [same, Function.update_self]
    · rw [Function.update_of_ne same]
      simpa [same] using idle.unlocked m
  · rw [result]
    refine (consistent.settle fun file₁ found₁ => ?_).reframe _ _
    cases Option.some.inj (found₁.symm.trans (Function.update_self ..))
    exact shaped
  · rw [recorded]
    exact isRecorded'
  · rw [recorded] at isIn
    refine ⟨shrinks.sub isIn, fun ne => ?_⟩
    have sameFile : t.store.files g = s.store.files g :=
      shrinks.files g isIn fun same => ne (Option.some.inj same)
    refine ⟨by rw [files, Function.update_of_ne ne, sameFile], fun page isPage => ?_⟩
    rw [← pagesOf_congr sameFile] at isPage
    have out := grew.consistent.disjoint isRecorded' isIn ne isPage
    rw [pagesOf_some grew.found] at out
    rw [memPtr, wrote.others page out, shrinks.memPtr]
    rfl
  · rw [samePages, memPtr, wrote.image, shrinks.memPtr]
    rfl

/-- A full stack is defragmented under a mutex that `fileStackAdd` holds already: that never
returns. -/
theorem ends_fileStackAdd_read (str : CStr) :
    Ends strict cfg w (fileStackAdd str) (fun _ s' => ∃ name stack, s.readStr str = .ok (some name) ∧
      s.store.fstack.push name = .ok stack ∧ s' = s.setStack stack) s := by
  unfold fileStackAdd
  rw [ends_bind, ends_lock]
  intro _ free
  rw [ends_bind]
  refine ends_call (by simp) fun top s₁ step => ?_
  cases step
  rw [ends_bind]
  refine ends_call (by simp) fun max s₁ step => ?_
  cases step
  have push : Ends strict cfg w (do call (.stackPush str); unlock .filestack)
      (fun _ s' => ∃ name stack, s.readStr str = .ok (some name) ∧
        s.store.fstack.push name = .ok stack ∧ s' = s.setStack stack)
      (s.setOwner .filestack (some w)) := by
    rw [ends_bind]
    refine ends_call (by simp) fun x s₁ step => ?_
    obtain ⟨name, read, step⟩ := Outcome.andThen_eq_ok.mp step
    rw [readStr_setOwner] at read
    cases name with
    | none => cases step
    | some name =>
        obtain ⟨stack, pushed, step⟩ := Outcome.andThen_eq_ok.mp step
        cases step
        rw [ends_unlock]
        intro _
        exact ⟨name, stack, read, pushed, Server.setOwner_release (s.setStack stack) _ free⟩
  by_cases full : (s.setOwner .filestack (some w)).store.fstack.top =
      (s.setOwner .filestack (some w)).store.fstack.max
  · rw [if_pos full]
    unfold fileStackDefrag
    rw [ends_bind, ends_bind, ends_lock]
    intro _ again
    simp at again
  · rw [if_neg full]
    exact push

theorem ends_fileStackAdd (str : CStr) :
    Ends strict cfg w (fileStackAdd str)
      (fun _ s' => ∃ name stack, s.store.fstack.push name = .ok stack ∧ s' = s.setStack stack) s := by
  refine wp_mono (ends_fileStackAdd_read str) ?_
  rintro _ s' ⟨name, stack, -, pushed⟩
  exact ⟨name, stack, pushed⟩

theorem ends_writeAccepted (fuel fd : Nat) {msg : Msg} {fileSize : Nat} {data : List UInt8}
    (idle : Idle cfg s) (isRecorded : f ∈ s.store.recorded) (found : s.store.files f = some file)
    (empty : file.pagesN = 0) (fits : fileSize ≤ cfg.serverMemorySize)
    (length : data.length = fileSize) (nonempty : strict → 0 < fileSize) :
    Ends strict cfg w (writeAccepted cfg fuel fd f fileSize data)
      (fun _ s' => 0 < fileSize ∧ s'.sent = s.sent ++ [(fd, msg), (fd, .int 0)] ∧
        ∃ pages, pages.length = pagesFor cfg fileSize ∧ Rewrote cfg f file
          { file with size := fileSize, pagesN := pagesFor cfg fileSize, pages := pages } 0 data s s')
      ((s.setOwner (.file f) (some w)).send fd msg) := by
  subst length
  obtain ⟨consistent, held⟩ := idle.locked w fd msg f
  obtain ⟨t, locked⟩ : ∃ t, (s.setOwner (.file f) (some w)).send fd msg = t := ⟨_, rfl⟩
  have isRecorded₀ : f ∈ t.store.recorded := by rw [← locked]; exact isRecorded
  have found₀ : t.store.files f = some file := by rw [← locked]; exact found
  rw [locked] at consistent held ⊢
  have noPages : file.pages = [] := by
    have filled := (idle.consistent.shaped f file isRecorded found nofun).filled
    exact List.length_eq_zero_iff.mp (filled.trans empty)
  unfold writeAccepted
  rw [ends_bind, ends_store]
  intro file₀ same
  cases Option.some.inj (same.symm.trans found₀)
  have consistent₁ : Consistent cfg (some f) []
      (t.setFile f (some (file.write (.size data.length)))).store :=
    consistent.setFile isRecorded₀ found₀ rfl (.refl _) nofun
  have heldAlways : ∀ g, some f = some g → t.owner (.file g) ≠ none := by
    rintro g same
    cases same
    exact held
  rw [ends_bind]
  refine wp_mono (ends_fileNUpdate cfg.fileMax consistent₁ heldAlways) ?_
  rintro _ t₂ ⟨consistent₂, shrinks₂⟩
  have isRecorded₂ := shrinks₂.held f isRecorded₀ held
  have found₂ := (shrinks₂.files f isRecorded₂ nofun).trans (Function.update_self ..)
  rw [ends_bind]
  refine wp_mono (ends_filePagesInitialize fuel consistent₂ isRecorded₂ found₂ noPages
    (by rw [shrinks₂.owner]; exact held)) ?_
  rintro _ t₃ ⟨pages, count, grew₃⟩
  change pages.length = pagesFor cfg data.length at count
  change Grew cfg f { file with
    size := data.length, pagesN := pagesFor cfg data.length, pages := pages } t₂ t₃ at grew₃
  have shrinks : Shrinks (some f) t t₃ :=
    ((Shrinks.setFile t f _).trans (shrinks₂.weaken _)).trans grew₃.shrinks
  have isRecorded₃ := shrinks.held f isRecorded₀ held
  rw [ends_bind, ends_load]
  intro file₃ same
  cases Option.some.inj (same.symm.trans grew₃.found)
  have writable := grew₃.consistent.writable isRecorded₃ grew₃.found
  rw [List.take_length]
  by_cases zero : data.length = 0
  · -- there is no page to hold the last page of nothing
    have none : pages.length = 0 := by rw [count, zero, pagesFor_zero]
    have loops : pagesFor cfg data.length - 1 = 0 := by rw [zero, pagesFor_zero]
    have room : sizeT (cfg.pageSize - 0) = cfg.pageSize := by
      have small := cfg.pageSize_lt
      rw [Int.sub_zero]
      exact sizeT_of_small (by omega)
    have out : (0 : Int) ≤ (0 : Nat) → pages[(0 : Int).toNat]? = Option.none :=
      fun _ => List.getElem?_eq_none (Nat.le_of_eq none)
    have failed := run_addPageToMem_out w (0 : Nat) 0 (lastPageSize cfg data.length) data
      grew₃.found (room ▸ lastPageSize_le cfg data.length) out
    rw [ends_bind, loops]
    show Ends strict cfg w (_ >>= _) _ _
    rw [ends_bind]
    exact ends_of_fault failed fun strictly => absurd zero (Nat.ne_of_gt (nonempty strictly))
  · have some := Nat.pos_of_ne_zero zero
    obtain ⟨mem₁, mem, rest, run₁, run, writable₁, wrote⟩ := run_writeData w writable some rfl count
    rw [ends_bind, ends_of_run run₁, ends_bind, ends_of_run run, ends_bind]
    refine wp_mono (ends_fileStackAdd _) ?_
    rintro _ _ ⟨-, stack, -, rfl⟩
    rw [ends_bind, ends_unlock]
    intro _
    rw [ends_writeNB]
    have grew := Grew.mk grew₃.consistent shrinks grew₃.found
    rw [← locked] at grew
    refine ⟨some, ?_, pages, count, grew.rewrote idle isRecorded wrote rfl rfl ?_ rfl ?_⟩
    · show t₃.sent ++ [(fd, .int 0)] = _
      rw [shrinks.sent, ← locked]
      simp
    · exact ⟨count, .inr ⟨pagesFor_pos cfg some, pagesFor_le cfg _⟩, fits⟩
    · have same : Function.update t₃.store.files f (Option.some _) = t₃.store.files :=
        Function.update_eq_self_iff.mpr grew₃.found.symm
      simp only [Server.setFile, Server.setMem_files]
      rw [same]
      rfl

theorem appendAccepted_eq (fuel fd : Nat) {n : Nat} (f : FileId) (data : List UInt8)
    (few : file.pagesN ≤ file.size / cfg.pageSize + 1)
    (fits : file.size + n ≤ cfg.serverMemorySize) :
    appendAccepted cfg fuel fd f file n data = (do
      filePagesRenew fuel f (appendPages cfg file.pagesN file.size n)
      appendRest cfg fd f file n (cfg.pageSize - file.size % cfg.pageSize : Nat)
        (n - (cfg.pageSize - file.size % cfg.pageSize : Nat)) data) := by
  have limit := cfg.serverMemorySize_le
  have smallPage := cfg.pageSize_lt
  have overflow : cInt (sizeT (n - (cfg.pageSize - file.size % cfg.pageSize : Nat))) =
      n - (cfg.pageSize - file.size % cfg.pageSize : Nat) :=
    bytesOverflow_eq (by omega) (by omega)
  unfold appendAccepted
  dsimp only
  rw [bytesAvailable_eq, overflow, newPageN_eq few fits]

theorem run_appendRest {fd n : Nat} {msg : Msg} {data : List UInt8} {pages : List Nat}
    (idle : Idle cfg s) (isRecorded : f ∈ s.store.recorded) (found : s.store.files f = some file)
    (fits : file.size + n ≤ cfg.serverMemorySize) (length : data.length = n)
    (hasPages : 0 < file.pagesN)
    (count : pages.length = appendPages cfg file.pagesN file.size n - file.pagesN)
    (grew : Grew cfg f { file with
      pagesN := file.pagesN + pages.length, pages := file.pages ++ pages }
        ((s.setOwner (.file f) (some w)).send fd msg) t) :
    ∃ s', (server W cfg).run w (appendRest cfg fd f file n
        (cfg.pageSize - file.size % cfg.pageSize : Nat)
        (n - (cfg.pageSize - file.size % cfg.pageSize : Nat)) data) t = .ok ((), s') ∧
      s'.sent = s.sent ++ [(fd, msg), (fd, .int 0)] ∧
      Rewrote cfg f file (file.grown n pages)
        ((file.pagesN - 1) * cfg.pageSize + file.size % cfg.pageSize) data s s' := by
  have limit := cfg.serverMemorySize_le
  have shaped := idle.consistent.shaped f file isRecorded found nofun
  have shrinks := grew.shrinks
  have isRecorded' : f ∈ t.store.recorded := shrinks.held f isRecorded (by simp)
  have writable := grew.consistent.writable isRecorded' grew.found
  have total : file.pagesN + pages.length = appendPages cfg file.pagesN file.size n := by
    have more := le_appendPages cfg file.pagesN file.size n
    omega
  have filled : (file.pages ++ pages).length = file.pagesN + pages.length := by
    rw [List.length_append, shaped.filled]
  obtain ⟨mem, wrote, run⟩ := run_appendData writable hasPages total filled length (by omega) (w := w)
  have found' : (t.setMem mem).store.files f = some { file with
      pagesN := file.pagesN + pages.length, pages := file.pages ++ pages } := grew.found
  have sum : sizeT (file.size + n) = file.size + n := by
    rw [← Int.natCast_add, sizeT_of_small (by omega)]
  obtain ⟨u, updated⟩ : ∃ u, (t.setMem mem).setFile f (some (file.grown n pages)) = u := ⟨_, rfl⟩
  have live : u.Live (.file f) := by
    simp [Server.Live, ← updated, Server.setFile]
  have ends : (server W cfg).run w (appendRest cfg fd f file n
      (cfg.pageSize - file.size % cfg.pageSize : Nat)
      (n - (cfg.pageSize - file.size % cfg.pageSize : Nat)) data) t =
        .ok ((), (u.setOwner (.file f) none).send fd (.int 0)) := by
    unfold appendRest
    rw [Machine.run_bind_of run, Machine.run_bind_of (run_store _ found'), sum]
    simp only [MemFile.write]
    rw [show { file with
      size := file.size + n, pagesN := file.pagesN + pages.length
      pages := file.pages ++ pages } = file.grown n pages from rfl, updated, Machine.run_bind_of (run_unlock live), run_writeNB]
  refine ⟨_, ends, ?_, grew.rewrote idle isRecorded wrote rfl rfl ?_ ?_ ?_⟩
  · show u.sent ++ [(fd, .int 0)] = _
    rw [← updated]
    show t.sent ++ [(fd, .int 0)] = _
    rw [shrinks.sent]
    simp
  · refine ⟨filled, .inr ⟨Nat.add_pos_left hasPages _, ?_⟩, fits⟩
    show file.pagesN + pages.length ≤ (file.size + n) / cfg.pageSize + 1
    rw [total]
    exact appendPages_le n shaped.few
  · rw [← updated]
    rfl
  · rw [← updated]
    rfl

theorem run_appendRest_empty {fd n : Nat} {data : List UInt8} (w : W) (shaped : file.Shaped cfg)
    (found : t.store.files f = some file') (none : file.pagesN = 0)
    (fits : file.size + n ≤ cfg.serverMemorySize) :
    (server W cfg).run w (appendRest cfg fd f file n
        (cfg.pageSize - file.size % cfg.pageSize : Nat)
        (n - (cfg.pageSize - file.size % cfg.pageSize : Nat)) data) t = .fault .pageIndex := by
  have limit := cfg.serverMemorySize_le
  have size : file.size = 0 := by
    rcases shaped.geometry with h | h
    · exact h.2
    · omega
  unfold appendRest
  rw [none, size, Nat.zero_mod, Nat.sub_zero, Machine.run_bind,
    run_appendData_empty w found (by omega)]
  rfl

theorem ends_appendAccepted (fuel fd : Nat) {n : Nat} {msg : Msg} {data : List UInt8}
    (idle : Idle cfg s) (isRecorded : f ∈ s.store.recorded) (found : s.store.files f = some file)
    (fits : file.size + n ≤ cfg.serverMemorySize) (length : data.length = n)
    (hasPages : strict → 0 < file.pagesN) :
    Ends strict cfg w (appendAccepted cfg fuel fd f file n data)
      (fun _ s' => 0 < file.pagesN ∧ s'.sent = s.sent ++ [(fd, msg), (fd, .int 0)] ∧
        ∃ pages, file.pagesN + pages.length = appendPages cfg file.pagesN file.size n ∧
          Rewrote cfg f file (file.grown n pages)
            ((file.pagesN - 1) * cfg.pageSize + file.size % cfg.pageSize) data s s')
      ((s.setOwner (.file f) (some w)).send fd msg) := by
  obtain ⟨consistent, held⟩ := idle.locked w fd msg f
  have shaped := idle.consistent.shaped f file isRecorded found nofun
  rw [appendAccepted_eq fuel fd f data shaped.few fits, ends_bind]
  refine wp_mono (ends_filePagesRenew fuel _ consistent isRecorded found held) ?_
  rintro _ t ⟨pages, count, grew⟩
  by_cases none : file.pagesN = 0
  · exact ends_of_fault (run_appendRest_empty w shaped grew.found none fits)
      fun strictly => absurd none (Nat.ne_of_gt (hasPages strictly))
  · have some' := Nat.pos_of_ne_zero none
    obtain ⟨s', ends, sent, rewrote⟩ :=
      run_appendRest idle isRecorded found fits length some' count grew
    rw [ends_of_run ends]
    refine ⟨some', sent, pages, ?_, rewrote⟩
    have more := le_appendPages cfg file.pagesN file.size n
    rw [count, Int.toNat_natCast]
    omega

end

end FileServer
