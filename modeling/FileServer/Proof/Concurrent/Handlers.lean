import FileServer.Proof.Concurrent.Conduct

/-!
# Reading and writing under the mutex of a record

What a handler has in hand while it works on one record, and what is left of it afterwards.
-/

namespace FileServer
open Program

structure Hand.At (h : Hand) (f : FileId) : Prop where
  locks : h.locks = [.file f]
  known : f ∈ h.refs

section
variable {cfg : Config} {counting : Prop} {h h' : Hand} {f : FileId} {fuel fd : Nat} {path : Path}

namespace Hand

theorem At.below (at_ : h.At f) (n : Nat) : h.Below n := by
  intro m held
  rw [at_.locks, List.mem_singleton] at held
  rw [held]
  exact Nat.zero_le n

theorem At.grows (at_ : h.At f) (grows : h.Grows h') : h'.At f :=
  ⟨grows.locks.trans at_.locks, grows.refs at_.known⟩

theorem At.keeps (at_ : h.At f) (keeps : h.Keeps h') : h'.At f := by
  refine ⟨keeps.locks.trans at_.locks, keeps.refs f at_.known ?_⟩
  rw [at_.locks]
  exact List.mem_singleton_self _

theorem At.reads (at_ : h.At f) : ∀ g, (CStr.abspath f).record = some g → g ∈ h.refs := by
  rintro g ⟨⟩
  exact at_.known

theorem below_of_empty (idle : h.locks = []) (n : Nat) : h.Below n := by
  unfold Below
  rw [idle]
  exact nofun

end Hand

theorem wp_lockAt {post : Unit → Hand → Prop} (idle : h.locks = []) (known : f ∈ h.refs)
    (rest : (h.after (.lock (.file f)) ()).At f → post () (h.after (.lock (.file f)) ())) :
    wp (conduct cfg counting) (lock (.file f)) post h :=
  wp_lockFile (.inl idle) known (rest ⟨congrArg (List.cons _) idle, known⟩)

theorem wp_unlockAt {post : Unit → Hand → Prop} (at_ : h.At f)
    (rest : post () { h with locks := [] }) :
    wp (conduct cfg counting) (unlock (.file f)) post h :=
  wp_unlockFile at_.locks at_.known rest

/-! ## Counting files and getting pages -/

theorem wp_fileNDecrease {post : Unit → Hand → Prop} (below : h.Below 1)
    (counted : counting → 0 < h.credit) (rest : post () { h with credit := h.credit - 1 }) :
    wp (conduct cfg counting) fileNDecrease post h := by
  unfold fileNDecrease
  rw [wp_bind]
  apply wp_lock (by decide) below
  rw [wp_bind, wp_call]
  refine ⟨⟨nofun, counted⟩, fun _ _ => ?_⟩
  exact wp_unlock_last (by decide) rfl rest

theorem wp_fileNUpdate (at_ : h.At f) :
    wp (conduct cfg counting) (fileNUpdate cfg.fileMax)
      (fun _ h' => h'.At f ∧ (counting → 0 < h'.credit)) h := by
  unfold fileNUpdate
  rw [wp_bind]
  apply wp_lock (by decide) (at_.below 1)
  rw [wp_bind, wp_call]
  refine ⟨⟨nofun, rfl⟩, fun counted _ => ?_⟩
  cases counted with
  | true =>
      show wp _ (unlock .fileN >>= _) _ _
      rw [wp_bind]
      apply wp_unlock_last (by decide) rfl
      exact ⟨⟨at_.locks, at_.known⟩, fun _ => Nat.succ_pos _⟩
  | false =>
      have below : (h.after (.lock .fileN) ()).Below 2 := (at_.below 2).cons (by decide) rfl
      have none : ∀ g, CStr.null.record = some g → g ∈ (h.after (.lock .fileN) ()).refs := nofun
      show wp _ (fileDeleteFIFO .null >>= _) _ (h.after (.lock .fileN) ())
      rw [wp_bind]
      apply wp_mono (wp_fileDeleteFIFO below none)
      intro deleted h' evicted
      obtain ⟨keeps, credited⟩ := evicted
      rw [wp_bind]
      apply wp_unlock_last (by decide) keeps.locks
      refine ⟨⟨at_.locks, keeps.refs f at_.known ?_⟩, fun c => ?_⟩
      · apply List.mem_cons_of_mem
        rw [at_.locks]
        exact List.mem_singleton_self _
      · rcases credited with ⟨-, unheld⟩ | credited
        · exact (unheld c List.mem_cons_self).elim
        · exact credited c (List.cons_ne_nil _ _)

theorem wp_pageGetLoop (at_ : h.At f) :
    wp (conduct cfg counting) (pageGetLoop (.abspath f) fuel) (fun _ h' => h'.At f) h := by
  induction fuel generalizing h with
  | zero => exact wp_spin
  | succ fuel ih =>
      have rest {h' : Hand} (at' : h'.At f) : wp (conduct cfg counting) (pageRetry (.abspath f) fuel)
          (fun _ h' => h'.At f) h' := by
        unfold pageRetry
        rw [wp_bind]
        apply wp_pageTake
        intro page
        cases page with
        | some page => exact at'
        | none => exact ih at'
      rw [pageGetLoop_succ]
      rw [wp_bind]
      apply wp_mono (wp_fileDeleteFIFO (at_.below 2) at_.reads)
      intro deleted h' evicted
      obtain ⟨keeps, credited⟩ := evicted
      have at' := at_.keeps keeps
      by_cases none : deleted = -1
      · rw [none]
        exact rest at'
      · have some : h.locks ≠ [] := by
          rw [at_.locks]
          exact List.cons_ne_nil _ _
        have counted : counting → 0 < h'.credit := by
          rcases credited with ⟨same, -⟩ | credited
          · exact (none same).elim
          · exact fun c => credited c some
        rw [if_pos none, wp_bind]
        apply wp_fileNDecrease (at'.below 1) counted
        exact rest ⟨at'.locks, at'.known⟩

theorem wp_pageGet (at_ : h.At f) :
    wp (conduct cfg counting) (pageGet fuel (.abspath f)) (fun _ h' => h'.At f) h := by
  unfold pageGet
  rw [wp_bind]
  apply wp_pageTake
  intro page
  cases page with
  | some page => exact at_
  | none => exact wp_pageGetLoop at_

theorem wp_filePagesFill {n : Nat} (at_ : h.At f) :
    wp (conduct cfg counting) (filePagesFill fuel f n) (fun _ h' => h'.At f) h := by
  induction n generalizing h with
  | zero => exact at_
  | succ n ih =>
      unfold filePagesFill
      rw [wp_bind]
      apply wp_mono (wp_pageGet at_)
      intro page h' at'
      rw [wp_bind]
      exact wp_store at'.known (by nofun) (ih at')

theorem wp_filePagesInitialize (at_ : h.At f) (counted : counting → 0 < h.credit) :
    wp (conduct cfg counting) (filePagesInitialize cfg fuel f) (fun _ h' => h'.At f) h := by
  unfold filePagesInitialize
  rw [wp_bind]
  apply wp_load at_.known
  intro file
  show wp _ (store f (.pagesN _) >>= _) _ h
  have at' (n : Nat) : (h.after (.store f (.pagesN n)) ()).At f := ⟨at_.locks, at_.known⟩
  unfold store
  rw [wp_bind, wp_call]
  refine ⟨⟨?_, fun c _ => counted c⟩, fun _ _ => ?_⟩
  · rintro g ⟨⟩
    exact at_.known
  · rw [wp_bind]
    exact wp_store (at' _).known nofun (wp_filePagesFill (at' _))

theorem wp_filePagesExtra {n : Nat} (at_ : h.At f) :
    wp (conduct cfg counting) (filePagesExtra fuel f n) (fun _ h' => h'.At f) h := by
  induction n generalizing h with
  | zero => exact at_
  | succ n ih =>
      unfold filePagesExtra
      rw [wp_bind]
      apply wp_mono (wp_pageGet at_)
      intro page h' at'
      rw [wp_bind]
      exact wp_mono (ih at') fun _ _ at'' => at''

theorem wp_filePagesRenew {dim : Int} (at_ : h.At f) :
    wp (conduct cfg counting) (filePagesRenew fuel f dim) (fun _ h' => h'.At f) h := by
  unfold filePagesRenew
  rw [wp_bind]
  apply wp_load at_.known
  intro file
  split
  · exact at_
  · show wp _ (if file.pages.length < file.pagesN then _ else _) _ h
    split
    · rw [wp_bind]
      exact wp_abort (by nofun)
    · show wp _ (filePagesExtra _ _ _ >>= _) _ h
      rw [wp_bind]
      apply wp_mono (wp_filePagesExtra at_)
      intro extra h' at'
      exact wp_store at'.known (by nofun) at'

theorem wp_addPageToMem {input : List UInt8} {pageInd offset : Int} {size : Nat}
    {post : Int → Hand → Prop} (known : f ∈ h.refs) (rest : ∀ r, post r h) :
    wp (conduct cfg counting) (addPageToMem cfg input f pageInd size offset) post h := by
  unfold addPageToMem
  split
  · exact rest _
  · show wp _ (load f >>= _) _ h
    rw [wp_bind]
    apply wp_load known
    intro file
    by_cases negative : pageInd < 0
    · rw [if_pos negative, wp_bind]
      exact wp_abort (by nofun)
    · rw [if_neg negative]
      cases file.pages[pageInd.toNat]? with
      | none => exact wp_abort (by nofun)
      | some index =>
          show wp _ (call (.memcpy ..) >>= _) _ h
          rw [wp_bind]
          exact wp_silent rfl fun _ => rest _

theorem wp_fileStackAdd (at_ : h.At f) :
    wp (conduct cfg counting) (fileStackAdd (.abspath f)) (fun _ h' => h'.At f) h := by
  have push {h' : Hand} (locks : h'.locks = [.filestack, .file f]) (known : f ∈ h'.refs) :
      wp (conduct cfg counting) (do call (.stackPush (.abspath f)); unlock .filestack)
        (fun _ h' => h'.At f) h' := by
    rw [wp_bind, wp_call]
    refine ⟨⟨?_, trivial⟩, fun _ _ => ?_⟩
    · rintro g ⟨⟩
      exact known
    · exact wp_unlock_last (by decide) locks ⟨rfl, known⟩
  have locked : (h.after (.lock .filestack) ()).locks = [.filestack, .file f] :=
    congrArg (List.cons _) at_.locks
  unfold fileStackAdd
  rw [wp_bind]
  apply wp_lock (by decide) (at_.below 2)
  rw [wp_bind, wp_call]
  refine ⟨⟨nofun, trivial⟩, fun top _ => ?_⟩
  rw [wp_bind]
  apply wp_silent (by rfl)
  intro max
  show wp _ (if top = max then _ else _) _ _
  split
  · rw [wp_bind]
    apply wp_mono (wp_fileStackDefrag ((at_.below 2).cons (by decide) rfl))
    intro _ h' grows
    exact push (grows.locks.trans locked) (grows.refs at_.known)
  · exact push locked at_.known

/-! ## Reading -/

theorem wp_fileOpenCheck {pid : Pid} (idle : h.locks = []) :
    wp (conduct cfg counting) (fileOpenCheck path pid)
      (fun r h' => h'.locks = [] ∧ ∀ f, r.2 = some f → f ∈ h'.refs) h := by
  unfold fileOpenCheck
  rw [wp_bind]
  apply wp_fileSearchSilent (h.below_of_empty idle 3)
  intro found
  have seen (f : FileId) (same : found = some f) : f ∈ (h.see found).refs := h.mem_see same
  apply wp_ite
  · intro _
    exact ⟨idle, seen⟩
  · intro _
    cases found with
    | none => exact ⟨idle, nofun⟩
    | some f =>
        show wp _ (lock (.file f) >>= _) _ (h.see (some f))
        rw [wp_bind]
        apply wp_lockAt (h := h.see (some f)) idle (seen f rfl)
        intro at'
        rw [wp_bind]
        apply wp_load at'.known
        intro file
        rw [wp_bind]
        apply wp_unlockAt at'
        refine ⟨rfl, ?_⟩
        rintro g ⟨⟩
        exact seen f rfl

theorem wp_sendPages {n i : Nat} {post : Unit → Hand → Prop} (known : f ∈ h.refs)
    (rest : post () h) : wp (conduct cfg counting) (sendPages cfg fd f n i) post h := by
  induction n generalizing i with
  | zero => exact rest
  | succ n ih =>
      unfold sendPages
      rw [wp_bind]
      apply wp_load known
      intro file
      cases file.pages[i]? with
      | none => exact wp_abort (by nofun)
      | some page =>
          show wp _ (call (.memRead ..) >>= _) _ h
          rw [wp_bind]
          apply wp_silent (by rfl)
          intro data
          rw [wp_bind]
          exact wp_writeNB ih

theorem wp_sendFile (idle : h.locks = []) (known : f ∈ h.refs) :
    wp (conduct cfg counting) (sendFile cfg fd f) (fun _ h' => h.Grows h') h := by
  have at' : (h.after (.lock (.file f)) ()).At f := ⟨congrArg (List.cons _) idle, known⟩
  have release : wp (conduct cfg counting) (unlock (.file f)) (fun _ h' => h.Grows h')
      (h.after (.lock (.file f)) ()) := wp_unlockAt at' ⟨idle.symm, subset_rfl⟩
  unfold sendFile
  rw [wp_bind]
  apply wp_lockFile (.inl idle) known
  rw [wp_bind]
  apply wp_load at'.known
  intro file
  rw [wp_bind]
  apply wp_writeNB
  split
  · show wp _ (sendPages .. >>= _) _ _
    rw [wp_bind]
    apply wp_sendPages at'.known
    cases file.pages[file.pagesN - 1]? with
    | none =>
        show wp _ (abort .pageIndex >>= _) _ _
        rw [wp_bind]
        exact wp_abort (by nofun)
    | some page =>
        show wp _ (call (.memRead ..) >>= _) _ _
        rw [wp_bind]
        apply wp_silent (by rfl)
        intro data
        rw [wp_bind]
        exact wp_writeNB release
  · exact release

theorem wp_fileRead {pid : Pid} (idle : h.locks = []) :
    wp (conduct cfg counting) (fileRead cfg fd path pid) (fun _ h' => h'.locks = []) h := by
  unfold fileRead
  rw [wp_bind]
  apply wp_mono (wp_fileOpenCheck idle)
  intro r h' checked
  obtain ⟨idle', known⟩ := checked
  dsimp only
  rw [wp_bind]
  apply wp_writeNB
  split
  · rw [wp_bind]
    apply wp_deref
    intro f same
    exact wp_mono (wp_sendFile idle' (known f same)) fun _ _ grows => grows.locks.trans idle'
  · exact idle'

/-! ## Writing -/

theorem wp_writePages {n toWrite : Nat} {input : List UInt8} {post : List UInt8 → Hand → Prop}
    (known : f ∈ h.refs) (rest : ∀ input, post input h) :
    wp (conduct cfg counting) (writePages cfg f n toWrite input) post h := by
  induction n generalizing toWrite input with
  | zero => exact rest input
  | succ n ih =>
      unfold writePages
      rw [wp_bind]
      exact wp_addPageToMem known fun _ => ih

theorem wp_writeAccepted {fileSize : Nat} {data : List UInt8} (at_ : h.At f) :
    wp (conduct cfg counting) (writeAccepted cfg fuel fd f fileSize data)
      (fun _ h' => h'.locks = []) h := by
  unfold writeAccepted
  rw [wp_bind]
  apply wp_store at_.known (by nofun)
  rw [wp_bind]
  apply wp_mono (wp_fileNUpdate at_)
  intro _ h₁ updated
  obtain ⟨at₁, counted⟩ := updated
  rw [wp_bind]
  apply wp_mono (wp_filePagesInitialize at₁ counted)
  intro _ h₂ at₂
  rw [wp_bind]
  apply wp_load at₂.known
  intro file
  rw [wp_bind]
  apply wp_writePages at₂.known
  intro rest
  rw [wp_bind]
  apply wp_addPageToMem at₂.known
  intro _
  rw [wp_bind]
  apply wp_mono (wp_fileStackAdd at₂)
  intro _ h₃ at₃
  rw [wp_bind]
  apply wp_unlockAt at₃
  exact wp_writeNB rfl

theorem wp_answerLocked {pid : Pid} (reqErr : Int → MemFile → Int)
    (accepted : FileId → MemFile → Handler Unit) (idle : h.locks = [])
    (goes : ∀ f file h', h'.At f →
      wp (conduct cfg counting) (accepted f file) (fun _ h' => h'.locks = []) h') :
    wp (conduct cfg counting) (do
      let (err, fileReq) ← fileOpenCheck path pid
      let f ← deref fileReq
      lock (.file f)
      let file ← load f
      writeNB fd (.int (reqErr err file))
      if reqErr err file ≠ 0 then unlock (.file f)
      else accepted f file) (fun _ h' => h'.locks = []) h := by
  rw [wp_bind]
  apply wp_mono (wp_fileOpenCheck idle)
  intro r h' checked
  obtain ⟨idle', known⟩ := checked
  dsimp only
  rw [wp_bind]
  apply wp_deref
  intro f same
  rw [wp_bind]
  apply wp_lockAt idle' (known f same)
  intro at'
  rw [wp_bind]
  apply wp_load at'.known
  intro file
  rw [wp_bind]
  apply wp_writeNB
  apply wp_ite
  · intro _
    exact wp_unlockAt at' rfl
  · intro _
    exact goes f file _ at'

theorem wp_fileWrite {pid : Pid} {fileSize : Nat} {data : List UInt8} (idle : h.locks = []) :
    wp (conduct cfg counting) (fileWrite cfg fuel fd path pid fileSize data)
      (fun _ h' => h'.locks = []) h :=
  wp_answerLocked
    (fun err file =>
      if cfg.serverMemorySize < fileSize then EFBIG else if file.pagesN ≠ 0 then EEXIST else err)
    (fun f _ => writeAccepted cfg fuel fd f fileSize data) idle
    fun _ _ _ at_ => wp_writeAccepted at_

theorem wp_appendData {oldPages size appendSize : Nat} {bytesAvailable bytesOverflow : Int}
    {data : List UInt8} {post : Unit → Hand → Prop} (known : f ∈ h.refs) (rest : post () h) :
    wp (conduct cfg counting)
      (appendData cfg f oldPages size appendSize bytesAvailable bytesOverflow data) post h := by
  unfold appendData
  apply wp_ite
  · intro _
    rw [wp_bind]
    exact wp_abort (by nofun)
  · intro _
    show wp _ (addPageToMem .. >>= _) _ h
    rw [wp_bind]
    apply wp_addPageToMem known
    intro _
    rw [wp_bind]
    apply wp_load known
    intro file
    rw [wp_bind]
    apply wp_writePages known
    intro input
    apply wp_ite
    · intro _
      rw [wp_bind]
      exact wp_addPageToMem known fun _ => rest
    · intro _
      exact rest

theorem wp_appendAccepted {file : MemFile} {appendSize : Nat} {data : List UInt8} (at_ : h.At f) :
    wp (conduct cfg counting) (appendAccepted cfg fuel fd f file appendSize data)
      (fun _ h' => h'.locks = []) h := by
  unfold appendAccepted
  rw [wp_bind]
  apply wp_mono (wp_filePagesRenew at_)
  intro _ h' at'
  unfold appendRest
  rw [wp_bind]
  apply wp_appendData at'.known
  rw [wp_bind]
  apply wp_store at'.known (by nofun)
  rw [wp_bind]
  apply wp_unlockAt at'
  exact wp_writeNB rfl

theorem wp_fileAppend {pid : Pid} {appendSize : Nat} {data : List UInt8} (idle : h.locks = []) :
    wp (conduct cfg counting) (fileAppend cfg fuel fd path pid appendSize data)
      (fun _ h' => h'.locks = []) h :=
  wp_answerLocked
    (fun err file => if cfg.serverMemorySize < sizeT (appendSize + file.size) then 1 else err)
    (fun f file => appendAccepted cfg fuel fd f file appendSize data) idle
    fun _ _ _ at_ => wp_appendAccepted at_

end

end FileServer
