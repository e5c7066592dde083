import FileServer.Proof.Concurrent.Sections

/-!
# Every request works in sections

A request starts and ends with no mutex in its grip.
-/

namespace FileServer
open Program

namespace Grip
variable {g g' : Grip} {f : FileId}

/-! ## Opening, closing, deleting, creating -/

theorem wp_updateClients {clients : MemFile → List Pid} (idle : g.Idle) :
    wp grips (do
      lock (.file f)
      let file ← load f
      store f (.clientsOpened (clients file))
      unlock (.file f)) (fun _ g' => g'.Idle) g := by
  rw [wp_bind]
  apply wp_lockAt idle
  intro g₁ at₁
  rw [wp_bind]
  apply wp_loadAt at₁
  intro file g₂ at₂ _
  rw [wp_bind]
  apply wp_storeAt at₂ (by trivial)
  intro g₃ at₃
  exact wp_unlockAt at₃ fun _ idle' => idle'

theorem wp_fileOpen {fd : Nat} {path : Path} {pid : Pid} (idle : g.Idle) :
    wp grips (fileOpen fd path pid) (fun _ g' => g'.Idle) g := by
  unfold fileOpen
  rw [wp_bind]
  apply wp_fileSearchSilent
  intro found
  dsimp only
  rw [wp_bind]
  apply wp_writeNB
  apply wp_ite
  · intro _
    rw [wp_bind]
    apply wp_deref
    intro f
    exact wp_updateClients idle
  · intro _
    exact idle

theorem wp_fileClose {fd : Nat} {path : Path} {pid : Pid} (idle : g.Idle) :
    wp grips (fileClose fd path pid) (fun _ g' => g'.Idle) g := by
  unfold fileClose
  rw [wp_bind]
  apply wp_fileSearchSilent
  intro found
  dsimp only
  rw [wp_bind]
  apply wp_writeNB
  cases found with
  | none => exact idle
  | some f =>
      show wp _ (if (0 : Int) = 0 then _ else _) _ _
      rw [if_pos rfl]
      exact wp_updateClients idle

theorem wp_fileDelete {fd : Nat} {path : Path} {pid : Pid} (idle : g.Idle) :
    wp grips (fileDelete fd path pid) (fun _ g' => g'.Idle) g := by
  unfold fileDelete
  rw [wp_bind]
  apply wp_mono (wp_fileOpenCheck idle)
  intro r g₁ idle₁
  dsimp only
  rw [wp_bind]
  apply wp_writeNB
  apply wp_ite
  · intro _
    rw [wp_bind]
    apply wp_deref
    intro f
    rw [wp_bind]
    apply wp_lockAt idle₁
    intro g₂ at₂
    rw [wp_bind]
    apply wp_hashGetFile
    · simp [at₂.held]
    intro found
    rw [wp_bind]
    apply wp_unlockAt at₂
    intro g₃ idle₃
    apply wp_mono wp_fileFree
    intro _ g₄ keeps
    exact ⟨keeps.locks.trans idle₃.locks, keeps.seen.trans idle₃.seen⟩
  · intro _
    exact idle₁

theorem wp_fileSearch {fd : Nat} {path : Path} (idle : g.Idle) :
    wp grips (fileSearch fd path) (fun _ g' => g'.Idle) g := by
  unfold fileSearch
  rw [wp_bind]
  apply wp_search
  intro found
  rw [wp_bind]
  exact wp_writeNB idle

theorem wp_fileInit {fd : Nat} {path : Path} (idle : g.Idle) :
    wp grips (fileInit fd path) (fun _ g' => g'.Idle) g := by
  unfold fileInit
  rw [wp_bind]
  refine wp_step (by simp) (by trivial) fun f _ => ?_
  rw [wp_bind]
  apply wp_lock
  intro _
  rw [wp_bind]
  apply wp_lock
  intro _
  rw [wp_bind]
  refine wp_step (by simp) (by trivial) fun _ _ => ?_
  rw [wp_bind]
  refine wp_step (o := .unlock .hashTB) (by simp [after]) (by trivial) fun _ _ => ?_
  have at_ : At { g with locks := [.file f] } f :=
    ⟨rfl, fun f' file known => absurd (known.symm.trans idle.seen) (by simp)⟩
  have same : { g with locks := [.file f] } =
      ({ g with locks := .file f :: .hashTB :: g.locks } : Grip).after (.unlock .hashTB) () := by
    simp [after, idle.locks]
  rw [wp_bind]
  show wp _ _ _ (({ g with locks := .file f :: .hashTB :: g.locks } : Grip).after (.unlock .hashTB) ())
  rw [← same]
  apply wp_unlockAt at_
  intro g₁ idle₁
  exact wp_writeNB idle₁

/-! ## `fileNRead` -/

theorem wp_arrayCopy {n i : Nat} {post : List Path → Grip → Prop} (held : .filestack ∈ g.locks)
    (rest : ∀ names, post names g) : wp grips (arrayCopy n i) post g := by
  induction n generalizing i post with
  | zero => exact rest []
  | succ n ih =>
      unfold arrayCopy
      rw [wp_bind]
      apply wp_stack held (by rfl) (by trivial) fun _ => by rfl
      intro cell
      cases cell with
      | none => exact wp_abort
      | some name =>
          show wp _ (arrayCopy n (i + 1) >>= _) _ g
          rw [wp_bind]
          exact ih fun names => rest _

theorem wp_fileNReadLoop {cfg : Config} {fd : Nat} {names : List Path} {n i : Nat} (idle : g.Idle) :
    wp grips (fileNReadLoop cfg fd names n i) (fun _ g' => g'.Idle) g := by
  induction n generalizing i g with
  | zero => exact idle
  | succ n ih =>
      unfold fileNReadLoop
      rw [wp_bind]
      refine wp_step (by simp) (by trivial) fun top _ => ?_
      apply wp_ite
      · intro _
        cases names[i]? with
        | none => exact wp_abort
        | some name =>
            show wp _ (hashGetFile (.copy name) .src >>= _) _ g
            rw [wp_bind]
            apply wp_hashGetFile (by simp)
            intro found
            cases found with
            | none => exact ih idle
            | some f =>
                show wp _ (lock (.file f) >>= _) _ g
                rw [wp_bind]
                apply wp_lockAt idle
                intro g₁ at₁
                rw [wp_bind]
                apply wp_loadAt at₁
                intro file g₂ at₂ _
                cases fileShortenName file.abspath with
                | none =>
                    rw [wp_bind]
                    exact wp_abort
                | some nameSent =>
                    show wp _ (writeNB fd _ >>= _) _ _
                    rw [wp_bind]
                    apply wp_writeNB
                    rw [wp_bind]
                    apply wp_writeNB
                    rw [wp_bind]
                    apply wp_unlockAt at₂
                    intro g₃ idle₃
                    rw [wp_bind]
                    apply wp_mono (wp_sendFile idle₃)
                    intro _ g₄ idle₄
                    exact ih idle₄
      · intro _
        exact idle

theorem wp_fileNRead {cfg : Config} {fd : Nat} {fileNum : Int} {rand : Nat → Nat} (idle : g.Idle) :
    wp grips (fileNRead cfg fd fileNum rand) (fun _ g' => g'.Idle) g := by
  unfold fileNRead
  rw [wp_bind]
  apply wp_mono wp_fileStackDefrag
  rintro _ g₁ rfl
  rw [wp_bind]
  apply wp_lock
  intro _
  rw [wp_bind]
  refine wp_step (by simp) (by trivial) fun arrS _ => ?_
  unfold arrayRandomPermutation
  rw [wp_bind, wp_bind]
  apply wp_arrayCopy List.mem_cons_self
  intro names
  show wp _ (unlock .filestack >>= _) _ _
  rw [wp_bind]
  apply wp_unlock (by simp) rfl
  have rest (fileNum : Int) : wp grips (do
      fileNReadLoop cfg fd (shuffle rand (arrS - 1) names) fileNum.toNat 0
      writeNB fd (.int 0)) (fun _ g' => g'.Idle) g₁ := by
    rw [wp_bind]
    apply wp_mono (wp_fileNReadLoop idle)
    intro _ g₂ idle₂
    exact wp_writeNB idle₂
  apply wp_ite
  · intro _
    rw [wp_bind]
    refine wp_step (by simp) (by trivial) fun top _ => ?_
    exact rest top
  · intro _
    exact rest fileNum

/-! ## Requests -/

theorem wp_handle {cfg : Config} {fuel fd : Nat} (r : Request) (idle : g.Idle) :
    wp grips (handle cfg fuel fd r) (fun _ g' => g'.Idle) g := by
  cases r with
  | fileRead path pid => exact wp_fileRead idle
  | fileNRead fileNum rand => exact wp_fileNRead idle
  | fileWrite path pid fileSize data => exact wp_fileWrite idle
  | fileAppend path pid appendSize data => exact wp_fileAppend idle
  | fileOpen path pid => exact wp_fileOpen idle
  | fileClose path pid => exact wp_fileClose idle
  | fileDelete path pid => exact wp_fileDelete idle
  | fileLock => exact idle
  | fileUnlock => exact idle
  | fileSearch path =>
      show wp _ (fileSearch fd path >>= _) _ g
      rw [wp_bind]
      exact wp_fileSearch idle
  | fileInit path => exact wp_fileInit idle

theorem wp_openFile {create : Bool} {fd : Nat} {path : Path} {pid : Pid} (idle : g.Idle) :
    wp grips (openFile create fd path pid) (fun _ g' => g'.Idle) g := by
  unfold openFile
  apply wp_ite
  · intro _
    rw [wp_bind]
    apply wp_mono (wp_fileSearch idle)
    intro response g₁ idle₁
    apply wp_ite
    · intro _
      rw [wp_bind]
      exact wp_mono (wp_fileInit idle₁) fun _ _ idle₂ => wp_fileOpen idle₂
    · intro _
      exact idle₁
  · intro _
    exact wp_fileOpen idle

theorem wp_client {W : Type} {cfg : Config} {w : W} {p : Handler Unit} (starts : ClientStarts cfg w p) :
    wp grips p (fun _ g => g.Idle) .empty := by
  have idle : empty.Idle := ⟨rfl, rfl⟩
  cases starts with
  | request fuel fd r => exact wp_handle r idle
  | openFile create fd path pid => exact wp_openFile idle

end Grip

end FileServer
