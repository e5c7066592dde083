import FileServer.Proof.Sequential.Listing
import FileServer.Proof.Sequential.RoundTrip
import FileServer.Proof.Sequential.Shown
import FileServer.Proof.Sequential.Shuffle

/-!
# The server as a file service

Requests served one after the other are answered as the specification allows, and leave the files it says.
-/

namespace FileServer
open Program

/-- After the append the file has as many pages as it takes, with the bytes where they belong. -/
def Lands (cfg : Config) (size n : Nat) : Prop :=
  n = 0 ∨ size % cfg.pageSize ≠ 0 ∧
    (n ≤ cfg.pageSize - size % cfg.pageSize ∨ (size + n) % cfg.pageSize ≠ 0)

/-- A file is created only while there is none of its name, which fits in a buffer; and what is appended
lands where it should. -/
def Ordinary (cfg : Config) (files : Files) : Request → Prop
  | .fileInit path => files path = none ∧ path.length < posixPathMax
  | .fileAppend path pid n _ => ∀ file ∈ files path, pid ∈ file.clients →
      file.content.length + n ≤ cfg.serverMemorySize → Lands cfg file.content.length n
  | _ => True

section
variable {W : Type} {cfg : Config} {w : W} {s s' : Server W} {σ σ' : Store} {f g : FileId}
  {file : MemFile} {stored : StoredFile} {path : Path} {pid : Pid} {r : Request} {fuel fd n : Nat}

theorem Lands.keeps {size : Nat} (lands : Lands cfg size n) : AppendKeepsCount cfg size n := by
  rcases lands with none | inside
  · exact .inl none
  · exact .inr (.inl inside)

theorem Lands.roomy {size : Nat} (lands : Lands cfg size n) :
    n = 0 ∨ pagesFor cfg size = size / cfg.pageSize + 1 := by
  rcases lands with none | ⟨partly, -⟩
  · exact .inl none
  · exact .inr (if_pos (Nat.pos_of_ne_zero partly))

theorem mem_clients : pid ∈ (σ.shows file).clients ↔ clientOpenSearch file.clientsOpened pid = true := by
  simp [Store.shows, clientOpenSearch]

theorem openAnswer_shows : (σ.shows file).openAnswer pid = openError file pid := by
  simp [StoredFile.openAnswer, openError, mem_clients]

def Answered (cfg : Config) (fd : Nat) (r : Request) (s s' : Server W) : Prop :=
  ∃ msgs, s'.sent = s.sent ++ msgs.map (fd, ·) ∧
    Answers cfg.serverMemorySize (s.store.shown cfg) r msgs (s'.store.shown cfg)

/-! ## What stays proper -/

theorem proper_initial (W : Type) (cfg : Config) : Proper cfg (Server.initial W cfg).store :=
  ⟨uniqueNames_initial W cfg, counted_initial W cfg⟩

theorem Proper.keepsCount (proper : Proper cfg σ) (ordinary : Ordinary cfg (σ.shown cfg) r) :
    KeepsCount cfg σ r := by
  cases r with
  | fileAppend path pid n data =>
      intro f file searched found opened fits
      obtain ⟨mem, -, shown⟩ := proper.searched searched found
      have length := proper.length_content mem found
      have lands := ordinary _ shown (mem_clients.mpr opened)
      rw [Store.shows, length] at lands
      exact (lands fits).keeps
  | _ => trivial

theorem Proper.createsOnce (proper : Proper cfg σ) (ordinary : Ordinary cfg (σ.shown cfg) r) :
    CreatesOnce cfg σ r := by
  cases r with
  | fileInit path => exact ⟨proper.absent ordinary.1, ordinary.2⟩
  | _ => trivial

theorem Proper.request (proper : Proper cfg s.store) (idle : Idle cfg s) (wellFormed : r.WellFormed)
    (ordinary : Ordinary cfg (s.store.shown cfg) r)
    (completed : (server W cfg).run w (handle cfg fuel fd r) s = .ok ((), s')) :
    Proper cfg s'.store :=
  ⟨proper.toUniqueNames.request idle wellFormed (proper.createsOnce ordinary) completed,
    proper.counted.request idle wellFormed (proper.keepsCount ordinary) completed⟩

/-! ## Answers -/

theorem Proper.read_answered (proper : Proper cfg s.store) (idle : Idle cfg s)
    (completed : (server W cfg).run w (fileRead cfg fd path pid) s = .ok ((), s')) :
    Answered cfg fd (.fileRead path pid) s s' := by
  rcases idle.lookup path with missing | ⟨f, file, searched, mem, found⟩
  · cases (idle.run_fileRead_missing w fd pid missing).symm.trans completed
    exact ⟨_, rfl, .missing rfl (proper.missing missing)⟩
  · obtain ⟨-, -, here⟩ := proper.searched searched found
    by_cases accepted : openError file pid = 0
    · cases (idle.run_fileRead_accepted w fd searched found accepted).symm.trans completed
      exact ⟨_, rfl, .read here (openAnswer_shows.trans accepted) (proper.carries mem found)⟩
    · cases (idle.run_fileRead_refused w fd pid searched found accepted).symm.trans completed
      rw [← openAnswer_shows] at accepted ⊢
      exact ⟨_, rfl, .readRefused here accepted⟩

theorem Proper.search_answered (proper : Proper cfg s.store) (idle : Idle cfg s)
    (completed : (server W cfg).run w (do let _ ← fileSearch fd path) s = .ok ((), s')) :
    Answered cfg fd (.fileSearch path) s s' := by
  rcases idle.lookup path with missing | ⟨f, file, searched, mem, found⟩
  · rw [Machine.run_bind_of (idle.run_fileSearch w fd missing)] at completed
    cases completed
    exact ⟨_, rfl, .missing rfl (proper.missing missing)⟩
  · rw [Machine.run_bind_of (idle.run_fileSearch w fd searched)] at completed
    cases completed
    exact ⟨_, rfl, .searched (proper.searched searched found).2.2⟩

theorem Proper.open_answered (proper : Proper cfg s.store) (proper' : Proper cfg s'.store) (idle : Idle cfg s)
    (completed : (server W cfg).run w (fileOpen fd path pid) s = .ok ((), s')) :
    Answered cfg fd (.fileOpen path pid) s s' := by
  rcases idle.lookup path with missing | ⟨f, file, searched, mem, found⟩
  · cases (idle.run_fileOpen_missing w fd pid missing).symm.trans completed
    exact ⟨_, rfl, .missing rfl (proper.missing missing)⟩
  · obtain ⟨-, rfl, here⟩ := proper.searched searched found
    cases (idle.run_fileOpen_found w fd pid searched found).symm.trans completed
    refine ⟨[.int 0], rfl, ?_⟩
    rw [proper.shown_setClients proper' mem found _ rfl]
    exact .opened here

theorem Proper.close_answered (proper : Proper cfg s.store) (proper' : Proper cfg s'.store) (idle : Idle cfg s)
    (completed : (server W cfg).run w (fileClose fd path pid) s = .ok ((), s')) :
    Answered cfg fd (.fileClose path pid) s s' := by
  rcases idle.lookup path with missing | ⟨f, file, searched, mem, found⟩
  · cases (idle.run_fileClose_missing w fd pid missing).symm.trans completed
    exact ⟨_, rfl, .missing rfl (proper.missing missing)⟩
  · obtain ⟨-, rfl, here⟩ := proper.searched searched found
    cases (idle.run_fileClose_found w fd pid searched found).symm.trans completed
    refine ⟨[.int 0], rfl, ?_⟩
    rw [proper.shown_setClients proper' mem found _ rfl]
    exact .closed here

theorem Proper.delete_answered (proper : Proper cfg s.store) (proper' : Proper cfg s'.store) (idle : Idle cfg s)
    (completed : (server W cfg).run w (fileDelete fd path pid) s = .ok ((), s')) :
    Answered cfg fd (.fileDelete path pid) s s' := by
  rcases idle.lookup path with missing | ⟨f, file, searched, mem, found⟩
  · cases (idle.run_fileDelete_missing w fd pid missing).symm.trans completed
    exact ⟨_, rfl, .missing rfl (proper.missing missing)⟩
  · obtain ⟨-, rfl, here⟩ := proper.searched searched found
    by_cases accepted : openError file pid = 0
    · obtain ⟨t, ran, sent, removes, -⟩ := idle.run_fileDelete_accepted w fd searched found accepted
      cases ran.symm.trans completed
      have sends : Proper cfg (s.send fd (.int 0)).store := proper
      have shown := sends.shown_removes proper' removes
      refine ⟨[.int 0], sent, ?_⟩
      rw [shown]
      exact .deleted here (openAnswer_shows.trans accepted)
    · cases (idle.run_fileDelete_refused w fd pid searched found accepted).symm.trans completed
      rw [← openAnswer_shows] at accepted ⊢
      exact ⟨_, rfl, .deleteRefused here accepted⟩

theorem Proper.init_answered (proper : Proper cfg s.store) (proper' : Proper cfg s'.store) (idle : Idle cfg s)
    (absent : s.store.shown cfg path = none)
    (completed : (server W cfg).run w (fileInit fd path) s = .ok ((), s')) :
    Answered cfg fd (.fileInit path) s s' := by
  cases (idle.run_fileInit w fd path).symm.trans completed
  refine ⟨[.int 1], rfl, ?_⟩
  show Answers _ _ _ _ ((s.store.create cfg path).shown cfg)
  rw [proper.shown_create proper']
  exact .created absent

theorem writeAnswer_shows (proper : Proper cfg σ) (mem : f ∈ σ.recorded) (found : σ.files f = some file)
    (size : Nat) (pid : Pid) :
    (σ.shows file).writeAnswer cfg.serverMemorySize pid size = writeError cfg file pid size := by
  unfold StoredFile.writeAnswer writeError
  rw [openAnswer_shows]
  by_cases empty : file.pagesN = 0
  · have none : (σ.shows file).content = [] := (proper.pagesN_eq_zero mem found).mp empty
    rw [if_neg (not_not.mpr none), if_neg (not_not.mpr empty)]
  · have some : (σ.shows file).content ≠ [] := fun none =>
      empty ((proper.pagesN_eq_zero mem found).mpr none)
    rw [if_pos some, if_pos empty]

theorem Proper.write_answered (proper : Proper cfg s.store) (proper' : Proper cfg s'.store) (idle : Idle cfg s)
    {data : List UInt8} (length : data.length = n)
    (completed : (server W cfg).run w (fileWrite cfg fuel fd path pid n data) s = .ok ((), s')) :
    Answered cfg fd (.fileWrite path pid n data) s s' := by
  rcases idle.lookup path with missing | ⟨f, file, searched, mem, found⟩
  · cases (idle.run_fileWrite_missing w fuel fd pid n data missing).symm.trans completed
  · obtain ⟨-, rfl, here⟩ := proper.searched searched found
    have same := writeAnswer_shows proper mem found n pid
    by_cases refused : writeError cfg file pid n ≠ 0
    · cases (idle.run_fileWrite_refused w fuel fd pid n data searched found refused).symm.trans completed
      rw [← same] at refused ⊢
      exact ⟨_, rfl, .writeRefused here refused⟩
    · have accepted := not_not.mp refused
      obtain ⟨fits, empty, -⟩ := writeError_eq_zero.mp accepted
      rw [idle.run_fileWrite_checked w fuel fd pid n data searched found, if_neg refused,
        accepted] at completed
      have ends : Ends False cfg w (writeAccepted cfg fuel fd f n data) _
          ((s.setOwner (.file f) (some w)).send fd (.int 0)) :=
        ends_writeAccepted fuel fd idle mem found empty fits length nofun
      obtain ⟨nonempty, sent, pages, count, rewrote⟩ := ends.run completed
      subst length
      obtain ⟨files', loses, shown⟩ := proper.shown_rewrote proper' mem found rewrote rfl
      refine ⟨[.int 0, .int 0], sent, ?_⟩
      have content := rewrote.written nonempty count
      rw [fileChunks_content rewrote.idle.consistent rewrote.recorded rewrote.found rfl]
        at content
      rw [shown, Store.shows, content]
      exact .written here (same.trans accepted) (List.ne_nil_of_length_pos nonempty) loses

/-- A size that is too large and a client that has not opened the file are refused with the same answer,
and a size that wraps around is not refused for its size. -/
theorem appendAnswer_shows (proper : Proper cfg σ) (mem : f ∈ σ.recorded) (found : σ.files f = some file)
    (refused : appendError cfg file pid n ≠ 0) :
    (σ.shows file).appendAnswer cfg.serverMemorySize pid n = appendError cfg file pid n := by
  have limit := cfg.serverMemorySize_le
  have size : (σ.shows file).content.length = file.size := proper.length_content mem found
  unfold StoredFile.appendAnswer
  rw [size, openAnswer_shows]
  unfold appendError at refused ⊢
  by_cases large : cfg.serverMemorySize < file.size + n
  · rw [if_pos large]
    by_cases checked : cfg.serverMemorySize < sizeT (n + file.size)
    · rw [if_pos checked]
      rfl
    · rw [if_neg checked] at refused ⊢
      unfold openError at refused ⊢
      split at refused
      · exact absurd rfl refused
      · rename_i closed
        rw [if_neg closed]
  · have small : sizeT (n + file.size) = n + file.size := by
      rw [← Int.natCast_add, sizeT_of_small (by omega)]
    rw [if_neg large, small, if_neg (by omega)]

theorem Proper.append_answered (proper : Proper cfg s.store) (proper' : Proper cfg s'.store) (idle : Idle cfg s)
    {data : List UInt8} (length : data.length = n) (wellFormed : n < 2 ^ 64)
    (ordinary : Ordinary cfg (s.store.shown cfg) (.fileAppend path pid n data))
    (completed : (server W cfg).run w (fileAppend cfg fuel fd path pid n data) s = .ok ((), s')) :
    Answered cfg fd (.fileAppend path pid n data) s s' := by
  rcases idle.lookup path with missing | ⟨f, file, searched, mem, found⟩
  · cases (idle.run_fileAppend_missing w fuel fd pid n data missing).symm.trans completed
  · obtain ⟨-, rfl, here⟩ := proper.searched searched found
    have shaped := idle.consistent.shaped f file mem found nofun
    have size : (s.store.shows file).content.length = file.size := proper.length_content mem found
    have opens : (s.store.shows file).openAnswer pid = openError file pid := openAnswer_shows
    by_cases refused : appendError cfg file pid n ≠ 0
    · cases (idle.run_fileAppend_refused w fuel fd pid n data searched found refused).symm.trans completed
      have same := appendAnswer_shows proper mem found refused
      rw [← same] at refused ⊢
      exact ⟨_, rfl, .appendRefused here refused⟩
    · have accepted := not_not.mp refused
      obtain ⟨checked, opened⟩ := appendError_eq_zero.mp accepted
      rw [idle.run_fileAppend_checked w fuel fd pid n data searched found, if_neg refused,
        accepted] at completed
      rcases appendSize_fits shaped wellFormed checked with fits | large
      · have ends : Ends False cfg w (appendAccepted cfg fuel fd f file n data) _
            ((s.setOwner (.file f) (some w)).send fd (.int 0)) :=
          ends_appendAccepted fuel fd idle mem found fits length nofun
        obtain ⟨hasPages, sent, pages, total, rewrote⟩ := ends.run completed
        obtain ⟨files', loses, shown⟩ := proper.shown_rewrote proper' mem found rewrote rfl
        refine ⟨[.int 0, .int 0], sent, ?_⟩
        have lands := ordinary _ here (mem_clients.mpr opened) (by rw [size]; exact fits)
        rw [size] at lands
        have right := lands.roomy
        rw [← proper.counted f mem file found] at right
        rw [shown, Store.shows, append_content idle mem found length total right rewrote]
        refine .appended here ?_ ?_ loses
        · rw [StoredFile.appendAnswer, size, if_neg (Nat.not_lt.mpr fits), opens]
          exact openError_eq_zero.mpr opened
        · intro empty
          exact Nat.ne_of_gt hasPages ((proper.pagesN_eq_zero mem found).mpr empty)
      · have ends : Ends False cfg w (appendAccepted cfg fuel fd f file n data) (fun _ _ => False)
            ((s.setOwner (.file f) (some w)).send fd (.int 0)) :=
          ends_appendAccepted_large fuel fd n data large
        exact (ends.run completed).elim

theorem Proper.nameReplies_entries (proper : Proper cfg σ) {names : List Path} {msgs : List Msg}
    (known : ∀ name ∈ names, ∃ f, σ.lookup cfg name = .ok (some f))
    (replies : nameReplies cfg σ names = .ok msgs) :
    ∃ entries, msgs = entries.flatten ∧ List.Forall₂ (σ.shown cfg).Entry names entries := by
  induction names generalizing msgs with
  | nil =>
      cases replies
      exact ⟨[], rfl, .nil⟩
  | cons name names ih =>
      obtain ⟨entry, reply, onward⟩ := Outcome.andThen_eq_ok.mp replies
      obtain ⟨rest, below, same⟩ := Outcome.andThen_eq_ok.mp onward
      cases same
      obtain ⟨f, searched⟩ := known name List.mem_cons_self
      obtain ⟨file, found⟩ := proper.consistent.alive (Store.hashTbSearch_mem (Store.lookup_eq_ok.mp searched))
      obtain ⟨mem, rfl, here⟩ := proper.searched searched found
      obtain ⟨entries, rfl, each⟩ := ih (fun other mem => known other (List.mem_cons_of_mem _ mem)) below
      rw [nameReply_known (short_of_reply reply) searched found] at reply
      cases shortened : fileShortenName file.abspath with
      | none =>
          rw [shortened] at reply
          cases reply
      | some base =>
          rw [shortened] at reply
          cases reply
          exact ⟨_ :: entries, rfl, .cons ⟨_, base, _, here, shortened, proper.carries mem found, rfl⟩ each⟩

theorem Proper.live (proper : Proper cfg σ) (listing : Listing cfg none σ) (here : σ.shown cfg path = some stored)
    (filled : stored.content ≠ []) : path ∈ σ.liveNames cfg := by
  obtain ⟨f, file, mem, found, rfl, rfl⟩ := proper.shown_iff.mp here
  have hasPages : file.pagesN ≠ 0 := fun none => filled ((proper.pagesN_eq_zero mem found).mp none)
  obtain ⟨i, name, -, cell, leads⟩ := listing.listed f mem (by simp) ((Store.holdsPages_of found).mpr hasPages)
  have named := (proper.lookup_iff.mp leads).2
  rw [Store.pathAt_of found] at named
  cases named
  exact proper.mem_liveNames (List.mem_of_getElem? cell) leads

theorem Proper.readMany_answered (proper : Proper cfg s.store) (listing : Listing cfg none s.store)
    (idle : Idle cfg s) (bounded : s.store.fstack.Bounded cfg) {fileNum : Int} {rand : Nat → Nat}
    (completed : (server W cfg).run w (fileNRead cfg fd fileNum rand) s = .ok ((), s')) :
    Answered cfg fd (.fileNRead fileNum rand) s s' := by
  obtain ⟨names, named⟩ : ∃ names, s.store.liveNames cfg = names := ⟨_, rfl⟩
  rw [idle.run_fileNRead_asked bounded w fd fileNum rand named] at completed
  obtain ⟨msgs, replies, same⟩ := Outcome.andThen_eq_ok.mp completed
  cases same
  have perm : (shuffle rand (names.length - 1) names).Perm names := shuffle_perm rand _ (Nat.le_refl _)
  obtain ⟨entries, rfl, each⟩ := proper.nameReplies_entries (fun name mem => by
    have live := perm.subset (List.mem_of_mem_take mem)
    rw [← named] at live
    exact liveNames_known live) replies
  refine ⟨entries.flatten ++ [.int 0], rfl, .readMany ?_ (fun some => ?_) (fun path stored here filled => ?_) each⟩
  · have nodup := liveNames_nodup cfg s.store
    rw [named] at nodup
    exact (perm.nodup_iff.mpr nodup).sublist (List.take_sublist ..)
  · rw [if_neg some]
    exact List.length_take_le ..
  · have drawn : path ∈ shuffle rand (names.length - 1) names := by
      rw [← named] at perm ⊢
      exact perm.mem_iff.mpr (proper.live listing here filled)
    by_cases some : fileNum = 0
    · rw [if_pos some, Int.toNat_natCast, List.take_of_length_le (Nat.le_of_eq perm.length_eq)]
      exact .inl drawn
    · rw [if_neg some]
      rcases Nat.le_total (shuffle rand (names.length - 1) names).length fileNum.toNat with whole | enough
      · rw [List.take_of_length_le whole]
        exact .inl drawn
      · exact .inr ⟨some, List.length_take_of_le enough⟩

theorem Proper.answered (proper : Proper cfg s.store) (listing : Listing cfg none s.store) (idle : Idle cfg s)
    (bounded : s.store.fstack.Bounded cfg) (wellFormed : r.WellFormed)
    (ordinary : Ordinary cfg (s.store.shown cfg) r)
    (completed : (server W cfg).run w (handle cfg fuel fd r) s = .ok ((), s')) :
    Answered cfg fd r s s' := by
  have proper' := proper.request idle wellFormed ordinary completed
  cases r with
  | fileRead path pid => exact proper.read_answered idle completed
  | fileNRead fileNum rand => exact proper.readMany_answered listing idle bounded completed
  | fileWrite path pid size data => exact proper.write_answered proper' idle wellFormed.1 completed
  | fileAppend path pid size data =>
      exact proper.append_answered proper' idle wellFormed.1 wellFormed.2 ordinary completed
  | fileOpen path pid => exact proper.open_answered proper' idle completed
  | fileClose path pid => exact proper.close_answered proper' idle completed
  | fileDelete path pid => exact proper.delete_answered proper' idle completed
  | fileLock =>
      cases completed
      exact ⟨[], (List.append_nil _).symm, .lock⟩
  | fileUnlock =>
      cases completed
      exact ⟨[], (List.append_nil _).symm, .unlock⟩
  | fileSearch path => exact proper.search_answered idle completed
  | fileInit path => exact proper.init_answered proper' idle ordinary.1 completed

/-! ## Runs -/

/-- Ordinary requests, served to the end one after the other by any workers. -/
def requestService (W : Type) (cfg : Config) : Service (Server W) (Nat × Request) (List Msg) where
  start := Server.initial W cfg
  serves s request msgs s' := request.2.WellFormed ∧ Ordinary cfg (s.store.shown cfg) request.2 ∧
    (∃ w fuel, (server W cfg).run w (handle cfg fuel request.1 request.2) s = .ok ((), s')) ∧
    s'.sent = s.sent ++ msgs.map (request.1, ·)

/-- The requests of a run, each ordinary where it was served. -/
abbrev Requested (W : Type) (cfg : Config) : List Request → Server W → Prop :=
  Traced W cfg (fun σ r => Ordinary cfg (σ.shown cfg) r) (fun rs _ _ r => rs ++ [r]) []

def Log.requests (log : Log) : List Request := log.map fun entry => entry.1.2

/-- The messages of a log, with the descriptors they went to. -/
def Log.sent (log : Log) : List (Nat × Msg) :=
  log.flatMap fun entry => entry.2.map (entry.1.1, ·)

theorem served_of_runs {log : Log} (runs : (requestService W cfg).Runs log s) :
    Served W cfg (fun _ _ => True) s ∧ Proper cfg s.store ∧ Listing cfg none s.store := by
  induction runs with
  | start => exact ⟨.initial, proper_initial W cfg, listing_initial W cfg⟩
  | serve before serves ih =>
      obtain ⟨served, proper, listing⟩ := ih
      obtain ⟨wellFormed, ordinary, ⟨w, fuel, completed⟩, -⟩ := serves
      exact ⟨served.request wellFormed trivial completed,
        proper.request served.idle wellFormed ordinary completed,
        listing.request proper.toUniqueNames served.idle served.bounded wellFormed
          (proper.createsOnce ordinary) completed⟩

theorem shown_initial (W : Type) (cfg : Config) :
    (Server.initial W cfg).store.shown cfg = fun _ => none := by
  funext path
  cases shown : (Server.initial W cfg).store.shown cfg path with
  | none => rfl
  | some stored =>
      obtain ⟨f, file, -, found, -⟩ := (proper_initial W cfg).shown_iff.mp shown
      cases found

/-- The server simulates the specification: what the store shows are its files. -/
theorem simulates (W : Type) (cfg : Config) : (requestService W cfg).Simulates
    (fileService cfg.serverMemorySize) (fun s files => s.store.shown cfg = files) where
  start := shown_initial W cfg
  serve := by
    rintro log s _ ⟨fd, r⟩ msgs s' runs rfl ⟨wellFormed, ordinary, ⟨w, fuel, completed⟩, sent⟩
    obtain ⟨served, proper, listing⟩ := served_of_runs runs
    obtain ⟨msgs', sent', answers⟩ := proper.answered listing served.idle served.bounded wellFormed ordinary completed
    have same := List.append_cancel_left (sent.symm.trans sent')
    have inj : Function.Injective fun msg : Msg => (fd, msg) := fun a b same => (Prod.mk.inj same).2
    cases List.map_injective_iff.mpr inj same
    exact ⟨_, answers, rfl⟩

theorem runs_of_requested {rs : List Request} (requested : Requested W cfg rs s) :
    ∃ log : Log, (requestService W cfg).Runs log s ∧ log.requests = rs ∧ log.sent = s.sent := by
  induction requested with
  | initial => exact ⟨[], .start, rfl, rfl⟩
  | @request rs s s' w fuel fd r before wellFormed met completed ih =>
      obtain ⟨log, runs, requests, sent⟩ := ih
      obtain ⟨served, proper, listing⟩ := served_of_runs runs
      obtain ⟨msgs, sends, -⟩ := proper.answered listing served.idle served.bounded wellFormed met completed
      refine ⟨log ++ [((fd, r), msgs)], runs.serve ⟨wellFormed, met, ⟨w, fuel, completed⟩, sends⟩, ?_, ?_⟩
      · rw [← requests]
        exact List.map_append ..
      · rw [sends, ← sent]
        simp [Log.sent]

/-- A run of the server is a run of the specification, with the requests made and the messages sent. -/
theorem refines {rs : List Request} (requested : Requested W cfg rs s) :
    ∃ log : Log, log.requests = rs ∧ log.sent = s.sent ∧
      (fileService cfg.serverMemorySize).Runs log (s.store.shown cfg) := by
  obtain ⟨log, runs, requests, sent⟩ := runs_of_requested requested
  obtain ⟨files, specified, rfl⟩ := (simulates W cfg).runs runs
  exact ⟨log, requests, sent, specified⟩

end

instance (cfg : Config) (size n : Nat) : Decidable (Lands cfg size n) :=
  inferInstanceAs (Decidable (n = 0 ∨ size % cfg.pageSize ≠ 0 ∧
    (n ≤ cfg.pageSize - size % cfg.pageSize ∨ (size + n) % cfg.pageSize ≠ 0)))

instance (cfg : Config) (files : Files) (r : Request) : Decidable (Ordinary cfg files r) :=
  match r with
  | .fileInit path => inferInstanceAs (Decidable (files path = none ∧ path.length < posixPathMax))
  | .fileAppend path pid n _ => inferInstanceAs (Decidable (∀ file ∈ files path, pid ∈ file.clients →
      file.content.length + n ≤ cfg.serverMemorySize → Lands cfg file.content.length n))
  | .fileRead _ _ | .fileNRead _ _ | .fileWrite _ _ _ _ | .fileOpen _ _ | .fileClose _ _
  | .fileDelete _ _ | .fileLock | .fileUnlock | .fileSearch _ => inferInstanceAs (Decidable True)

theorem history_requests {test : Store → Request → Bool} {cfg : Config} {fuel fd : Nat} {rs : List Request}
    {s : Server Unit} (passed : metAll test cfg fuel fd rs s = true) (before : List Request) :
    history (fun rs _ _ r => rs ++ [r]) cfg fuel fd rs before s = before ++ rs := by
  induction rs generalizing s before with
  | nil => exact (List.append_nil before).symm
  | cons r rs ih =>
      unfold metAll at passed
      obtain ⟨-, rest⟩ := Bool.and_eq_true_iff.mp passed
      unfold history
      cases completed : (server Unit cfg).run () (handle cfg fuel fd r) s with
      | ok result =>
          rw [completed] at rest
          have below := ih rest (before ++ [r])
          rw [List.append_assoc] at below
          exact below
      | _ =>
          rw [completed] at rest
          cases rest

theorem requested_reached {cfg : Config} {fuel : Nat} {rs : List Request} (wellFormed : ∀ r ∈ rs, r.WellFormed)
    (passed : metAll (fun σ r => Ordinary cfg (σ.shown cfg) r) cfg fuel 0 rs (Server.initial Unit cfg) = true) :
    Requested Unit cfg rs (reached cfg fuel rs) := by
  have traced : Requested Unit cfg (history (fun rs _ _ r => rs ++ [r]) cfg fuel 0 rs []
      (Server.initial Unit cfg)) (reached cfg fuel rs) :=
    traced_reached _ (fun _ _ => of_decide_eq_true) wellFormed passed
  rwa [history_requests passed] at traced

def rereading : List Request := evicting ++ [.fileRead [98] 7, .fileRead [97] 7, .fileAppend [98] 7 2 [7, 8],
  .fileNRead 0 fun _ => 0, .fileDelete [98] 7, .fileSearch [98]]

theorem requested_rereading : Requested Unit smallConfig rereading (reached smallConfig 5 rereading) :=
  requested_reached (by simp [rereading, evicting, Request.WellFormed]) (by decide +kernel)

theorem refines_example : ∃ log : Log, log.requests = rereading ∧
    log.sent = (reached smallConfig 5 rereading).sent ∧
    (fileService 16).Runs log ((reached smallConfig 5 rereading).store.shown smallConfig) :=
  refines requested_rereading

end FileServer
