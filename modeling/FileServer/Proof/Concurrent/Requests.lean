import FileServer.Proof.Concurrent.Handlers

/-!
# Every request keeps to the conduct

A request starts and ends with no mutex held.
-/

namespace FileServer
open Program

section
variable {cfg : Config} {counting : Prop} {h h' : Hand} {f : FileId} {fuel fd : Nat} {path : Path}

/-! ## Opening, closing, deleting, creating -/

theorem wp_updateClients {clients : MemFile → List Pid} (idle : h.locks = []) (known : f ∈ h.refs) :
    wp (conduct cfg counting) (do
      lock (.file f)
      let file ← load f
      store f (.clientsOpened (clients file))
      unlock (.file f)) (fun _ h' => h'.locks = []) h := by
  rw [wp_bind]
  apply wp_lockAt idle known
  intro at'
  rw [wp_bind]
  apply wp_load at'.known
  intro file
  rw [wp_bind]
  apply wp_store at'.known (by nofun)
  exact wp_unlockAt at' rfl

theorem wp_fileOpen {pid : Pid} (idle : h.locks = []) :
    wp (conduct cfg counting) (fileOpen fd path pid) (fun _ h' => h'.locks = []) h := by
  unfold fileOpen
  rw [wp_bind]
  apply wp_fileSearchSilent (h.below_of_empty idle 3)
  intro found
  dsimp only
  rw [wp_bind]
  apply wp_writeNB
  apply wp_ite
  · intro _
    rw [wp_bind]
    apply wp_deref
    intro f same
    exact wp_updateClients idle (h.mem_see same)
  · intro _
    exact idle

theorem wp_fileClose {pid : Pid} (idle : h.locks = []) :
    wp (conduct cfg counting) (fileClose fd path pid) (fun _ h' => h'.locks = []) h := by
  unfold fileClose
  rw [wp_bind]
  apply wp_fileSearchSilent (h.below_of_empty idle 3)
  intro found
  dsimp only
  rw [wp_bind]
  apply wp_writeNB
  cases found with
  | none => exact idle
  | some f =>
      show wp _ (if (0 : Int) = 0 then _ else _) _ _
      rw [if_pos rfl]
      exact wp_updateClients idle (h.mem_see rfl)

theorem wp_fileDelete {pid : Pid} (idle : h.locks = []) :
    wp (conduct cfg counting) (fileDelete fd path pid) (fun _ h' => h'.locks = []) h := by
  unfold fileDelete
  rw [wp_bind]
  apply wp_mono (wp_fileOpenCheck idle)
  intro r h' checked
  obtain ⟨idle', known⟩ := checked
  dsimp only
  rw [wp_bind]
  apply wp_writeNB
  split
  · rw [wp_bind]
    apply wp_deref
    intro f same
    rw [wp_bind]
    apply wp_lockAt idle' (known f same)
    intro at'
    rw [wp_bind]
    apply wp_hashGetFile (at'.below 3) at'.reads fun _ => rfl
    intro found
    have at'' := at'.grows (Hand.grows_see _ found)
    rw [wp_bind]
    apply wp_unlockFile
    · exact at''.locks
    · exact at''.known
    apply wp_fileFree (Or.inl at'.known) rfl (by nofun)
    intro _ _
    rfl
  · exact idle'

theorem wp_fileSearch (idle : h.locks = []) :
    wp (conduct cfg counting) (fileSearch fd path) (fun _ h' => h'.locks = []) h := by
  unfold fileSearch
  rw [wp_bind]
  apply wp_search (h.below_of_empty idle 3)
  intro found
  rw [wp_bind]
  exact wp_writeNB idle

theorem wp_fileInit (idle : h.locks = []) :
    wp (conduct cfg counting) (fileInit fd path) (fun _ h' => h'.locks = []) h := by
  unfold fileInit
  rw [wp_bind, wp_call]
  refine ⟨⟨nofun, trivial⟩, fun f _ => ?_⟩
  let made := h.after (.newFile path) f
  have known : f ∈ made.refs := Set.mem_insert ..
  have lockedTable : (made.after (.lock .hashTB) ()).locks = [.hashTB] := congrArg (List.cons _) idle
  rw [wp_bind]
  apply wp_lock (by decide) (made.below_of_empty idle 3)
  rw [wp_bind]
  apply wp_lockFile (.inr (.inr ⟨lockedTable, rfl⟩)) known
  rw [wp_bind, wp_call]
  refine ⟨⟨?_, rfl⟩, fun _ _ => ?_⟩
  · rintro g ⟨⟩
    exact known
  · rw [wp_bind]
    apply wp_unlock (List.mem_cons_of_mem _ List.mem_cons_self) (by nofun)
    have locks : (Mutex.file f :: .hashTB :: h.locks).erase .hashTB = [.file f] := by
      rw [idle]
      rfl
    rw [wp_bind]
    apply wp_unlockFile
    · exact locks
    · exact known
    · exact wp_writeNB rfl

theorem wp_arrayCopy {n i : Nat} {post : List Path → Hand → Prop} (rest : ∀ names, post names h) :
    wp (conduct cfg counting) (arrayCopy n i) post h := by
  induction n generalizing i post with
  | zero => exact rest []
  | succ n ih =>
      unfold arrayCopy
      rw [wp_bind]
      apply wp_silent (by rfl)
      intro cell
      cases cell with
      | none => exact wp_abort (by nofun)
      | some name =>
          show wp _ (arrayCopy n (i + 1) >>= _) _ h
          rw [wp_bind]
          exact ih fun names => rest _

theorem wp_arrayRandomPermutation {rand : Nat → Nat} {n : Nat} {post : List Path → Hand → Prop}
    (rest : ∀ names, post names h) :
    wp (conduct cfg counting) (arrayRandomPermutation rand n) post h := by
  unfold arrayRandomPermutation
  rw [wp_bind]
  exact wp_arrayCopy fun names => rest _

theorem wp_fileNReadLoop {names : List Path} {n i : Nat} (idle : h.locks = []) :
    wp (conduct cfg counting) (fileNReadLoop cfg fd names n i) (fun _ h' => h'.locks = []) h := by
  induction n generalizing i h with
  | zero => exact idle
  | succ n ih =>
      unfold fileNReadLoop
      rw [wp_bind]
      apply wp_silent (by rfl)
      intro top
      apply wp_ite
      · intro _
        cases names[i]? with
        | none => exact wp_abort (by nofun)
        | some name =>
            show wp _ (hashGetFile (.copy name) .src >>= _) _ h
            rw [wp_bind]
            refine wp_hashGetFile (h.below_of_empty idle 3) (by simp [CStr.record]) (by simp) ?_
            intro found
            cases found with
            | none => exact ih idle
            | some f =>
                have known : f ∈ (h.see (some f)).refs := h.mem_see rfl
                show wp _ (lock (.file f) >>= _) _ (h.see (some f))
                rw [wp_bind]
                apply wp_lockAt (h := h.see (some f)) idle known
                intro at'
                rw [wp_bind]
                apply wp_load at'.known
                intro file
                cases fileShortenName file.abspath with
                | none =>
                    rw [wp_bind]
                    exact wp_abort (by nofun)
                | some nameSent =>
                    show wp _ (writeNB fd _ >>= _) _ _
                    rw [wp_bind]
                    apply wp_writeNB
                    rw [wp_bind]
                    apply wp_writeNB
                    rw [wp_bind]
                    apply wp_unlockAt at'
                    rw [wp_bind]
                    apply wp_mono
                    · exact wp_sendFile rfl at'.known
                    · intro _ h' grows
                      exact ih grows.locks
      · intro _
        exact idle

theorem wp_fileNRead {fileNum : Int} {rand : Nat → Nat} (idle : h.locks = []) :
    wp (conduct cfg counting) (fileNRead cfg fd fileNum rand) (fun _ h' => h'.locks = []) h := by
  unfold fileNRead
  rw [wp_bind]
  apply wp_mono (wp_fileStackDefrag (h.below_of_empty idle 2))
  intro _ h' grows
  have idle' := grows.locks.trans idle
  rw [wp_bind]
  apply wp_lock (by decide) (h'.below_of_empty idle' 2)
  rw [wp_bind]
  apply wp_silent (by rfl)
  intro arrS
  rw [wp_bind]
  apply wp_arrayRandomPermutation
  intro names
  rw [wp_bind]
  apply wp_unlock_last (by decide) rfl
  have rest {h : Hand} (idle : h.locks = []) (fileNum : Int) : wp (conduct cfg counting) (do
      fileNReadLoop cfg fd names fileNum.toNat 0
      writeNB fd (.int 0)) (fun _ h' => h'.locks = []) h := by
    rw [wp_bind]
    apply wp_mono (wp_fileNReadLoop idle)
    intro _ h'' idle''
    exact wp_writeNB idle''
  apply wp_ite
  · intro _
    rw [wp_bind]
    apply wp_silent (by rfl)
    intro top
    apply rest
    exact idle'
  · intro _
    show wp _ (fileNReadLoop .. >>= _) _ _
    apply rest
    exact idle'

/-! ## Requests -/

theorem wp_handle (r : Request) (idle : h.locks = []) :
    wp (conduct cfg counting) (handle cfg fuel fd r) (fun _ h' => h'.locks = []) h := by
  cases r with
  | fileRead path pid => exact wp_fileRead idle
  | fileNRead fileNum rand => exact wp_fileNRead idle
  | fileWrite path pid fileSize data => exact wp_fileWrite idle
  | fileAppend path pid appendSize data => exact wp_fileAppend idle
  | fileOpen path pid => exact wp_fileOpen idle
  | fileClose path pid => exact wp_fileClose idle
  | fileDelete path pid => exact wp_fileDelete idle
  | fileLock => exact idle
  | fileUnlock => exact idle
  | fileSearch path =>
      show wp _ (fileSearch fd path >>= _) _ h
      rw [wp_bind]
      exact wp_fileSearch idle
  | fileInit path => exact wp_fileInit idle

theorem wp_openFile {create : Bool} {pid : Pid} (idle : h.locks = []) :
    wp (conduct cfg counting) (openFile create fd path pid) (fun _ h' => h'.locks = []) h := by
  unfold openFile
  apply wp_ite
  · intro _
    rw [wp_bind]
    apply wp_mono (wp_fileSearch idle)
    intro response h₁ idle₁
    apply wp_ite
    · intro _
      rw [wp_bind]
      exact wp_mono (wp_fileInit idle₁) fun _ _ idle₂ => wp_fileOpen idle₂
    · intro _
      exact idle₁
  · intro _
    exact wp_fileOpen idle

theorem wp_client {W : Type} {w : W} {p : Handler Unit} (starts : ClientStarts cfg w p) :
    wp (conduct cfg counting) p (fun _ h' => h'.locks = []) .empty := by
  cases starts with
  | request fuel fd r => exact wp_handle r rfl
  | openFile create fd path pid => exact wp_openFile rfl

end

end FileServer
