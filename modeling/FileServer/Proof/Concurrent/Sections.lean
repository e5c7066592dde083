import FileServer.Proof.Concurrent.Grip

/-!
# Sections under the mutex of one record

What a worker has in its grip when it reads or writes a file.
-/

namespace FileServer
open Program

namespace Grip
variable {g g' : Grip} {f : FileId}

/-! ## Under the mutex of one record -/

structure At (g : Grip) (f : FileId) : Prop where
  locks : g.locks = [.file f]
  seen : ∀ f' file, g.seen = some (f', file) → f' = f

structure Idle (g : Grip) : Prop where
  locks : g.locks = []
  seen : g.seen = none

theorem At.held (at_ : g.At f) : .file f ∈ g.locks := by
  rw [at_.locks]
  exact List.mem_singleton_self _

theorem At.sound (at_ : g.At f) : g.Sound := by
  intro f' file known
  rw [at_.seen f' file known]
  exact at_.held

theorem At.keeps (at_ : g.At f) (keeps : g.Keeps g') : g'.At f :=
  ⟨keeps.locks.trans at_.locks, fun f' file known => at_.seen f' file (keeps.seen ▸ known)⟩

theorem At.after_store (at_ : g.At f) (field : FieldWrite) : (g.after (.store f field) ()).At f := by
  refine ⟨at_.locks, fun f' file known => ?_⟩
  obtain ⟨seen, before, same⟩ := Option.map_eq_some_iff.mp known
  have here : seen.1 = f := at_.seen _ _ before
  rw [if_pos here] at same
  exact (congrArg Prod.fst same).symm

theorem wp_lockAt {post : Unit → Grip → Prop} (idle : g.Idle)
    (rest : ∀ g', g'.At f → post () g') : wp grips (lock (.file f)) post g := by
  apply wp_lock
  intro _
  refine rest _ ⟨?_, fun f' file known => ?_⟩
  · rw [idle.locks]
  · exact absurd (known.symm.trans idle.seen) (by simp)

theorem wp_unlockAt {post : Unit → Grip → Prop} (at_ : g.At f)
    (rest : ∀ g', g'.Idle → post () g') : wp grips (unlock (.file f)) post g := by
  apply wp_unlockFile at_.locks
  refine rest _ ⟨rfl, ?_⟩
  cases known : g.seen with
  | none => rfl
  | some seen =>
      have here : seen.1 = f := at_.seen _ _ known
      simp [Option.filter, here]

theorem wp_loadAt {post : MemFile → Grip → Prop} (at_ : g.At f)
    (rest : ∀ file g', g'.At f → g'.seen = some (f, file) → post file g') :
    wp grips (load f) post g := by
  apply wp_load at_.held
  intro file _
  refine rest file _ ⟨at_.locks, ?_⟩ rfl
  rintro f' file' ⟨⟩
  rfl

theorem wp_storeAt {field : FieldWrite} {post : Unit → Grip → Prop} (at_ : g.At f)
    (moves : g.mayMove (.store f field)) (rest : ∀ g', g'.At f → post () g') :
    wp grips (store f field) post g :=
  wp_step (by simpa using at_.held) moves fun _ _ => rest _ (at_.after_store field)

theorem wp_filePagesFill {fuel n : Nat} (at_ : g.At f) :
    wp grips (filePagesFill fuel f n) (fun _ g' => g'.At f) g := by
  induction n generalizing g with
  | zero => exact at_
  | succ n ih =>
      unfold filePagesFill
      rw [wp_bind]
      apply wp_mono (wp_pageGet at_.sound)
      intro page g₁ gained
      have at₁ : g₁.At f := ⟨gained.locks.trans at_.locks, fun f' file known =>
        at_.seen f' file (gained.seen ▸ known)⟩
      rw [wp_bind]
      apply wp_storeAt at₁
      · exact gained.pages.subset List.mem_cons_self
      · intro g₂ at₂
        exact ih at₂

theorem wp_filePagesInitialize {cfg : Config} {fuel : Nat} (at_ : g.At f) :
    wp grips (filePagesInitialize cfg fuel f) (fun _ g' => g'.At f) g := by
  unfold filePagesInitialize
  rw [wp_bind]
  apply wp_loadAt at_
  intro file g₁ at₁ _
  show wp _ (store f (.pagesN _) >>= _) _ g₁
  rw [wp_bind]
  apply wp_storeAt at₁ (by trivial)
  intro g₂ at₂
  rw [wp_bind]
  apply wp_storeAt at₂ (by trivial)
  intro g₃ at₃
  exact wp_filePagesFill at₃

theorem wp_filePagesExtra {fuel n : Nat} (sound : g.Sound) :
    wp grips (filePagesExtra fuel f n) (fun extra g' => (g.gain extra).Keeps g') g := by
  induction n generalizing g with
  | zero => exact .refl g
  | succ n ih =>
      unfold filePagesExtra
      rw [wp_bind]
      apply wp_mono (wp_pageGet sound)
      intro page g₁ gained
      have sound₁ : g₁.Sound := Sound.keeps (g := g.gain [page]) sound gained
      rw [wp_bind]
      apply wp_mono (ih sound₁)
      intro extra g₂ more
      have both : (g.gain (page :: extra)).Keeps (g₁.gain extra) := by
        refine ⟨gained.locks, ?_, gained.seen⟩
        have moved : (page :: extra ++ g.pages).Perm (extra ++ (page :: g.pages)) :=
          List.perm_middle.symm
        exact moved.subperm.trans ((List.subperm_append_left extra).mpr gained.pages)
      exact both.trans more

theorem wp_filePagesRenew {fuel : Nat} {dim : Int} (at_ : g.At f) :
    wp grips (filePagesRenew fuel f dim) (fun _ g' => g'.At f) g := by
  unfold filePagesRenew
  rw [wp_bind]
  apply wp_loadAt at_
  intro file g₁ at₁ seen
  apply wp_ite
  · intro _
    exact at₁
  · intro _
    show wp _ (if file.pages.length < file.pagesN then _ else _) _ g₁
    apply wp_ite
    · intro _
      rw [wp_bind]
      exact wp_abort
    · intro _
      show wp _ (filePagesExtra _ _ _ >>= _) _ g₁
      rw [wp_bind]
      apply wp_mono (wp_filePagesExtra at₁.sound)
      intro extra g₂ gained
      have at₂ : g₂.At f := ⟨gained.locks.trans at₁.locks, fun f' file' known =>
        at₁.seen f' file' (gained.seen ▸ known)⟩
      apply wp_storeAt at₂
      · refine ⟨file, gained.seen.trans seen, ?_⟩
        have some : extra.Subperm g₂.pages :=
          (List.sublist_append_left extra g₁.pages).subperm.trans gained.pages
        exact (List.take_sublist _ _).subperm.append some
      · intro g₃ at₃
        exact at₃

theorem wp_addPageToMem {cfg : Config} {input : List UInt8} {pageInd offset : Int} {size : Nat}
    {post : Int → Grip → Prop} (at_ : g.At f) (rest : ∀ r g', g'.At f → post r g') :
    wp grips (addPageToMem cfg input f pageInd size offset) post g := by
  unfold addPageToMem
  apply wp_ite
  · intro _
    exact rest _ g at_
  · intro _
    show wp _ (load f >>= _) _ g
    rw [wp_bind]
    apply wp_loadAt at_
    intro file g₁ at₁ seen
    apply wp_ite
    · intro _
      rw [wp_bind]
      exact wp_abort
    · intro _
      cases found : file.pages[pageInd.toNat]? with
      | none => exact wp_abort
      | some index =>
          show wp _ (call (.memcpy ..) >>= _) _ g₁
          rw [wp_bind]
          refine wp_step (by simp) ?_ fun _ _ => rest _ _ at₁
          show index ∈ g₁.pagesSeen
          rw [pagesSeen, seen]
          exact List.mem_of_getElem? found

theorem wp_writePages {cfg : Config} {n toWrite : Nat} {input : List UInt8}
    {post : List UInt8 → Grip → Prop} (at_ : g.At f) (rest : ∀ input g', g'.At f → post input g') :
    wp grips (writePages cfg f n toWrite input) post g := by
  induction n generalizing toWrite input g with
  | zero => exact rest input g at_
  | succ n ih =>
      unfold writePages
      rw [wp_bind]
      apply wp_addPageToMem at_
      intro _ g₁ at₁
      exact ih at₁

theorem wp_fileStackAdd {str : CStr} : wp grips (fileStackAdd str) (fun _ g' => g' = g) g := by
  have held : Mutex.filestack ∈ Mutex.filestack :: g.locks := List.mem_cons_self
  have push : wp grips (do call (.stackPush str); unlock .filestack) (fun _ g' => g' = g)
      { g with locks := .filestack :: g.locks } := by
    rw [wp_bind]
    apply wp_stack held (by rfl) (by trivial) fun _ => by rfl
    intro _
    exact wp_unlock (by simp) rfl rfl
  unfold fileStackAdd
  rw [wp_bind]
  apply wp_lock
  intro _
  rw [wp_bind]
  refine wp_step (by simp) (by trivial) fun top _ => ?_
  rw [wp_bind]
  apply wp_stack held (by rfl) (by trivial) fun _ => by rfl
  intro max
  apply wp_ite
  · intro _
    rw [wp_bind]
    apply wp_mono wp_fileStackDefrag
    rintro _ _ rfl
    exact push
  · intro _
    exact push

/-! ## Reading -/

theorem wp_fileOpenCheck {path : Path} {pid : Pid} (idle : g.Idle) :
    wp grips (fileOpenCheck path pid) (fun _ g' => g'.Idle) g := by
  unfold fileOpenCheck
  rw [wp_bind]
  apply wp_fileSearchSilent
  intro found
  apply wp_ite
  · intro _
    exact idle
  · intro _
    cases found with
    | none => exact idle
    | some f =>
        show wp _ (lock (.file f) >>= _) _ g
        rw [wp_bind]
        apply wp_lockAt idle
        intro g₁ at₁
        rw [wp_bind]
        apply wp_loadAt at₁
        intro file g₂ at₂ _
        rw [wp_bind]
        apply wp_unlockAt at₂
        intro g₃ idle₃
        exact idle₃

theorem wp_memRead {page size : Nat} {file : MemFile} {i : Nat} {post : List UInt8 → Grip → Prop}
    (seen : g.seen = some (f, file)) (found : file.pages[i]? = some page)
    (rest : ∀ data, post data g) : wp grips (call (.memRead page size)) post g := by
  refine wp_step (by simp) ?_ fun data _ => rest data
  show page ∈ g.pagesSeen
  rw [pagesSeen, seen]
  exact List.mem_of_getElem? found

theorem wp_sendPages {cfg : Config} {fd n i : Nat} {file : MemFile} {post : Unit → Grip → Prop}
    (at_ : g.At f) (seen : g.seen = some (f, file))
    (rest : ∀ g', g'.At f → g'.seen = some (f, file) → post () g') :
    wp grips (sendPages cfg fd f n i) post g := by
  induction n generalizing i g with
  | zero => exact rest g at_ seen
  | succ n ih =>
      unfold sendPages
      rw [wp_bind]
      apply wp_load at_.held
      intro file₁ known
      obtain rfl := known file seen
      have at₁ : At { g with seen := some (f, file₁) } f := by
        refine ⟨at_.locks, ?_⟩
        rintro f' file' ⟨⟩
        rfl
      cases found : file₁.pages[i]? with
      | none => exact wp_abort
      | some page =>
          show wp _ (call (.memRead ..) >>= _) _ _
          rw [wp_bind]
          apply wp_memRead (by rfl) found
          intro data
          rw [wp_bind]
          exact wp_writeNB (ih at₁ rfl)

theorem wp_sendFile {cfg : Config} {fd : Nat} (idle : g.Idle) :
    wp grips (sendFile cfg fd f) (fun _ g' => g'.Idle) g := by
  have release {g' : Grip} (at' : g'.At f) :
      wp grips (unlock (.file f)) (fun _ g' => g'.Idle) g' := wp_unlockAt at' fun _ idle' => idle'
  unfold sendFile
  rw [wp_bind]
  apply wp_lockAt idle
  intro g₁ at₁
  rw [wp_bind]
  apply wp_loadAt at₁
  intro file g₂ at₂ seen
  rw [wp_bind]
  apply wp_writeNB
  apply wp_ite
  · intro _
    show wp _ (sendPages .. >>= _) _ _
    rw [wp_bind]
    apply wp_sendPages at₂ seen
    intro g₃ at₃ seen₃
    cases found : file.pages[file.pagesN - 1]? with
    | none =>
        show wp _ (abort .pageIndex >>= _) _ _
        rw [wp_bind]
        exact wp_abort
    | some page =>
        show wp _ (call (.memRead ..) >>= _) _ _
        rw [wp_bind]
        apply wp_memRead seen₃ found
        intro data
        rw [wp_bind]
        exact wp_writeNB (release at₃)
  · intro _
    exact release at₂

theorem wp_fileRead {cfg : Config} {fd : Nat} {path : Path} {pid : Pid} (idle : g.Idle) :
    wp grips (fileRead cfg fd path pid) (fun _ g' => g'.Idle) g := by
  unfold fileRead
  rw [wp_bind]
  apply wp_mono (wp_fileOpenCheck idle)
  intro r g₁ idle₁
  dsimp only
  rw [wp_bind]
  apply wp_writeNB
  apply wp_ite
  · intro _
    rw [wp_bind]
    apply wp_deref
    intro f
    exact wp_sendFile idle₁
  · intro _
    exact idle₁

/-! ## Writing -/

theorem wp_writeAccepted {cfg : Config} {fuel fd fileSize : Nat} {data : List UInt8} (at_ : g.At f) :
    wp grips (writeAccepted cfg fuel fd f fileSize data) (fun _ g' => g'.Idle) g := by
  unfold writeAccepted
  rw [wp_bind]
  apply wp_storeAt at_ (by trivial)
  intro g₁ at₁
  rw [wp_bind]
  apply wp_mono (wp_fileNUpdate at₁.sound)
  intro _ g₂ keeps
  rw [wp_bind]
  apply wp_mono (wp_filePagesInitialize (at₁.keeps keeps))
  intro _ g₃ at₃
  rw [wp_bind]
  apply wp_loadAt at₃
  intro file g₄ at₄ _
  rw [wp_bind]
  apply wp_writePages at₄
  intro rest g₅ at₅
  rw [wp_bind]
  apply wp_addPageToMem at₅
  intro _ g₆ at₆
  rw [wp_bind]
  apply wp_mono wp_fileStackAdd
  rintro _ _ rfl
  rw [wp_bind]
  apply wp_unlockAt at₆
  intro g₇ idle₇
  exact wp_writeNB idle₇

theorem wp_answerLocked {fd : Nat} {path : Path} {pid : Pid} (reqErr : Int → MemFile → Int)
    (accepted : FileId → MemFile → Handler Unit) (idle : g.Idle)
    (goes : ∀ f file g', g'.At f → wp grips (accepted f file) (fun _ g' => g'.Idle) g') :
    wp grips (do
      let (err, fileReq) ← fileOpenCheck path pid
      let f ← deref fileReq
      lock (.file f)
      let file ← load f
      writeNB fd (.int (reqErr err file))
      if reqErr err file ≠ 0 then unlock (.file f)
      else accepted f file) (fun _ g' => g'.Idle) g := by
  rw [wp_bind]
  apply wp_mono (wp_fileOpenCheck idle)
  intro r g₁ idle₁
  dsimp only
  rw [wp_bind]
  apply wp_deref
  intro f
  rw [wp_bind]
  apply wp_lockAt idle₁
  intro g₂ at₂
  rw [wp_bind]
  apply wp_loadAt at₂
  intro file g₃ at₃ _
  rw [wp_bind]
  apply wp_writeNB
  apply wp_ite
  · intro _
    exact wp_unlockAt at₃ fun _ idle' => idle'
  · intro _
    exact goes f file g₃ at₃

theorem wp_fileWrite {cfg : Config} {fuel fd fileSize : Nat} {path : Path} {pid : Pid}
    {data : List UInt8} (idle : g.Idle) :
    wp grips (fileWrite cfg fuel fd path pid fileSize data) (fun _ g' => g'.Idle) g :=
  wp_answerLocked
    (fun err file =>
      if cfg.serverMemorySize < fileSize then EFBIG else if file.pagesN ≠ 0 then EEXIST else err)
    (fun f _ => writeAccepted cfg fuel fd f fileSize data) idle
    fun _ _ _ at_ => wp_writeAccepted at_

theorem wp_appendData {cfg : Config} {oldPages size appendSize : Nat}
    {bytesAvailable bytesOverflow : Int} {data : List UInt8} (at_ : g.At f) :
    wp grips (appendData cfg f oldPages size appendSize bytesAvailable bytesOverflow data)
      (fun _ g' => g'.At f) g := by
  unfold appendData
  apply wp_ite
  · intro _
    rw [wp_bind]
    exact wp_abort
  · intro _
    show wp _ (addPageToMem .. >>= _) _ g
    rw [wp_bind]
    apply wp_addPageToMem at_
    intro _ g₁ at₁
    rw [wp_bind]
    apply wp_loadAt at₁
    intro file g₂ at₂ _
    rw [wp_bind]
    apply wp_writePages at₂
    intro input g₃ at₃
    apply wp_ite
    · intro _
      rw [wp_bind]
      exact wp_addPageToMem at₃ fun _ _ at₄ => at₄
    · intro _
      exact at₃

theorem wp_appendAccepted {cfg : Config} {fuel fd appendSize : Nat} {file : MemFile}
    {data : List UInt8} (at_ : g.At f) :
    wp grips (appendAccepted cfg fuel fd f file appendSize data) (fun _ g' => g'.Idle) g := by
  unfold appendAccepted
  rw [wp_bind]
  apply wp_mono (wp_filePagesRenew at_)
  intro _ g₁ at₁
  unfold appendRest
  rw [wp_bind]
  apply wp_mono (wp_appendData at₁)
  intro _ g₂ at₂
  rw [wp_bind]
  apply wp_storeAt at₂ (by trivial)
  intro g₃ at₃
  rw [wp_bind]
  apply wp_unlockAt at₃
  intro g₄ idle₄
  exact wp_writeNB idle₄

theorem wp_fileAppend {cfg : Config} {fuel fd appendSize : Nat} {path : Path} {pid : Pid}
    {data : List UInt8} (idle : g.Idle) :
    wp grips (fileAppend cfg fuel fd path pid appendSize data) (fun _ g' => g'.Idle) g :=
  wp_answerLocked
    (fun err file => if cfg.serverMemorySize < sizeT (appendSize + file.size) then 1 else err)
    (fun f file => appendAccepted cfg fuel fd f file appendSize data) idle
    fun _ _ _ at_ => wp_appendAccepted at_

end Grip

end FileServer
