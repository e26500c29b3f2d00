import TinyLord.Db.Registry

/-!
# Deleting a database really deletes it

From the moment a deletion drops the handle until it returns, nobody opens the files. So
nobody caches a handle on them, they are gone when it returns, and what the next creation
opens is new.
-/

open Lib Lib.Inodes Lib.Run Lib.Threads

namespace TinyLord.Registry

/-! ## What the statements are about -/

def Act.isRun : Act → Bool
  | .run => true
  | _ => false

def Act.isFail : Act → Bool
  | .fail => true
  | _ => false

def Act.isOpenFailed : Act → Bool
  | .openFailed => true
  | _ => false

def Thread.opening : Thread → Bool
  | .running _ .openDb | .running _ (.initDatabase _) => true
  | _ => false

def Thread.acking : Thread → Option Handle
  | .running _ (.ack h _) => some h
  | _ => none

def Thread.unlinking : Thread → Option Suffix
  | .running _ (.unlink suffix) => some suffix
  | _ => none

def Thread.removing : Thread → Option Suffix
  | .closing suffix => some suffix
  | _ => none

def removed (t : Thread) (a : Act) : Prop := a.isFail → t.unlinking ≠ some .main

/-- No request opens the files between a deletion's removal of the handle and its return. -/
def openedApart (c : Host) (t : Thread) (a : Act) : Prop :=
  a.isRun ∨ a.isOpenFailed → t.opening → c.handle = none → c.ledger.deleting = []

/-- Once a creation has returned, no write is acknowledged through a handle that was dropped
before the creation. -/
def ackedInPlace (c : Host) (t : Thread) (a : Act) : Prop :=
  a.isRun → ∀ h ∈ t.acking, c.ledger.created ≤ h.removals

/-- No connection that closes late removes the WAL of a newer handle. -/
def closedApart (c : Host) (t : Thread) (a : Act) : Prop :=
  a.isRun → t.removing = some .wal → c.handle = none

def cleanly (c : Host) (_ : Nat) (t : Thread) (a : Act) : Prop :=
  removed t a ∧ openedApart c t a ∧ ackedInPlace c t a ∧ closedApart c t a

instance (c : Host) (i : Nat) (t : Thread) (a : Act) : Decidable (cleanly c i t a) :=
  inferInstanceAs (Decidable ((_ → _) ∧ (_ → _ → _ → _) ∧ (_ → _) ∧ (_ → _ → _)))

/-! ## The invariant -/

/-- The shared state. A handle in the map is on the files at the paths, and while a deletion is
under way there is none. The WAL of a dropped handle goes to no other file than its own. -/
structure HostInv (c : Host) : Prop where
  away : c.ledger.deleting ≠ [] → c.handle = none
  cached : ∀ h, c.handle = some h → c.disk.path .main = some h.main ∧
    c.disk.path .wal = some h.wal ∧ h.removals = c.ledger.removals
  recent : ∀ doc ∈ c.docs, c.ledger.deletions ≤ doc.deletions
  created : c.ledger.created ≤ c.ledger.removals
  opened : ∀ h ∈ c.dropped, h.main < c.disk.fresh ∧ h.wal < c.disk.fresh
  late : ∀ h ∈ c.dropped, c.disk.path .main = some h.main →
    ∀ doc ∈ c.disk.content .wal h.wal, c.ledger.deletions ≤ doc.deletions
  paired : ∀ h ∈ c.dropped, c.disk.path .wal = some h.wal →
    c.disk.path .main = none ∨ c.disk.path .main = some h.main

/-- A handle that a request holds. It is the cached one unless a deletion has dropped that. -/
def Held (c : Host) (h : Handle) : Prop :=
  h.removals ≤ c.ledger.removals ∧ (h.removals = c.ledger.removals → c.handle = some h)

/-- No deletion has dropped a handle since the count was `removals`, so one is cached. -/
def Standing (c : Host) (removals : Nat) : Prop :=
  removals = c.ledger.removals → c.handle.isSome = true

def StoredFrom (c : Host) (n : Nat) : Prop :=
  ∀ doc ∈ c.ledger.acked.drop n, doc ∈ c.docs

def Assertion (c : Host) (i : Nat) : Thread → Prop
  | .running _ (.use h) => Held c h
  | .running _ (.ack h doc) =>
    Held c h ∧ (h.removals = c.ledger.removals → doc ∈ h.docs c.disk)
  | .running _ (.initDatabase removals) => removals ≤ c.ledger.removals
  | .running _ (.reply removals) => removals ≤ c.ledger.removals ∧ Standing c removals
  | .running _ (.unlink .main) => i ∈ c.ledger.deleting
  | .running _ (.unlink .wal) | .running _ (.unlink .shm) | .running _ .deleteRecord
  | .running _ .deleteGrants => i ∈ c.ledger.deleting ∧ c.disk.path .main = none
  | .done _ (.created removals n) => removals ≤ c.ledger.created ∧ n ≤ c.ledger.acked.length ∧
    Standing c removals ∧ (removals = c.ledger.removals → StoredFrom c n)
  | .done _ (.deleted number) => number ≤ c.ledger.deletions
  | .closing suffix => suffix ≠ .main
  | _ => True

/-- What a step of another request may change under request `j`. -/
structure Undisturbed (c c' : Host) (j : Nat) : Prop where
  removals : c.ledger.removals ≤ c'.ledger.removals
  handle : ∀ h, c'.ledger.removals = c.ledger.removals → c.handle = some h → c'.handle = some h
  content : ∀ h, c'.ledger.removals = c.ledger.removals → c.handle = some h →
    ∀ doc ∈ h.docs c.disk, doc ∈ h.docs c'.disk
  deleting : j ∈ c.ledger.deleting → j ∈ c'.ledger.deleting ∧
    (c.disk.path .main = none → c'.disk.path .main = none)
  created : c.ledger.created ≤ c'.ledger.created
  deletions : c.ledger.deletions ≤ c'.ledger.deletions
  acked : c.ledger.acked.length ≤ c'.ledger.acked.length
  stored : ∀ n ≤ c.ledger.acked.length, c.ledger.removals ≤ c.ledger.created →
    c'.ledger.removals = c.ledger.removals → c.handle.isSome = true → StoredFrom c n →
    StoredFrom c' n

variable {c c' : Host} {i j : Nat} {t t' : Thread} {a : Act} {rq : Request} {h : Handle}
  {held : List Handle}

theorem Held.undisturbed (hh : Held c h) (hu : Undisturbed c c' j) : Held c' h := by
  obtain ⟨hle, hcached⟩ := hh
  refine ⟨Nat.le_trans hle hu.removals, ?_⟩
  intro heq
  have := hu.removals
  exact hu.handle h (by omega) (hcached (by omega))

theorem Standing.undisturbed {removals : Nat} (hs : Standing c removals)
    (hle : removals ≤ c.ledger.removals) (hu : Undisturbed c c' j) : Standing c' removals := by
  intro heq
  have := hu.removals
  obtain ⟨h, hh⟩ := Option.isSome_iff_exists.mp (hs (by omega))
  rw [hu.handle h (by omega) hh]
  rfl

theorem Assertion.undisturbed (hi : HostInv c) (ha : Assertion c j t) (hu : Undisturbed c c' j) :
    Assertion c' j t := by
  match t with
  | .idle | .running _ .start | .running _ .openDb | .running _ .removeHandle
  | .done _ .written | .done _ (.docs _) | .done _ (.error _) | .closed => trivial
  | .closing suffix => exact ha
  | .running _ (.use h) => exact Held.undisturbed ha hu
  | .running _ (.ack h doc) =>
    obtain ⟨hheld, hdoc⟩ := ha
    refine ⟨hheld.undisturbed hu, fun heq => ?_⟩
    have hle := hheld.1
    have := hu.removals
    have heq' : h.removals = c.ledger.removals := by omega
    exact hu.content h (by omega) (hheld.2 heq') doc (hdoc heq')
  | .running _ (.initDatabase removals) => exact Nat.le_trans ha hu.removals
  | .running _ (.reply removals) =>
    exact ⟨Nat.le_trans ha.1 hu.removals, ha.2.undisturbed ha.1 hu⟩
  | .running _ (.unlink .main) => exact (hu.deleting ha).1
  | .running _ (.unlink .wal) | .running _ (.unlink .shm) | .running _ .deleteRecord
  | .running _ .deleteGrants => exact ⟨(hu.deleting ha.1).1, (hu.deleting ha.1).2 ha.2⟩
  | .done _ (.created removals n) =>
    obtain ⟨hk, hn, hstand, hstored⟩ := ha
    have hle := Nat.le_trans hk hi.created
    refine ⟨Nat.le_trans hk hu.created, Nat.le_trans hn hu.acked, hstand.undisturbed hle hu, ?_⟩
    intro heq
    have := hu.removals
    have heq' : removals = c.ledger.removals := by omega
    exact hu.stored n hn (by omega) (by omega) (hstand heq') (hstored heq')
  | .done _ (.deleted number) => exact Nat.le_trans ha hu.deletions

/-! ## The documents at the path -/

theorem docs_none (h : c.disk.path .main = none) : c.docs = [] := by simp [Host.docs, h]

theorem docs_at (hmain : c.disk.path .main = some h.main) (hwal : c.disk.path .wal = some h.wal) :
    c.docs = h.docs c.disk := by
  rw [Host.docs, if_pos (by rw [hmain]; rfl), Disk.read_of_path hmain, Disk.read_of_path hwal,
    Handle.docs]

theorem HostInv.docs (hi : HostInv c) (hh : c.handle = some h) : c.docs = h.docs c.disk :=
  docs_at (hi.cached h hh).1 (hi.cached h hh).2.1

theorem mem_docs {doc : Doc} : doc ∈ c.docs ↔ ∃ m, c.disk.path .main = some m ∧
    (doc ∈ c.disk.content .main m ∨ ∃ n, c.disk.path .wal = some n ∧
      doc ∈ c.disk.content .wal n) := by
  unfold Host.docs
  cases hm : c.disk.path .main with
  | none => simp
  | some m =>
    cases hw : c.disk.path .wal with
    | none => simp [Disk.read, hm, hw]
    | some n => simp [Disk.read, hm, hw]

/-! ## What single steps keep -/

structure Kept (c c' : Host) (i : Nat) (t' : Thread) : Prop where
  inv : HostInv c'
  own : Assertion c' i t'
  others : ∀ j, j ≠ i → Undisturbed c c' j

theorem kept_of_same (hi : HostInv c) (hh : c'.handle = c.handle)
    (hdropped : ∀ h ∈ c'.dropped, h ∈ c.dropped) (hd : c'.disk = c.disk)
    (hl : c'.ledger = c.ledger) (hown : Assertion c' i t') : Kept c c' i t' where
  inv := by
    have hdocs : c'.docs = c.docs := by unfold Host.docs; rw [hd]
    constructor
    · rw [hh, hl]
      exact hi.away
    · rw [hh, hd, hl]
      exact hi.cached
    · rw [hdocs, hl]
      exact hi.recent
    · rw [hl]
      exact hi.created
    · rw [hd]
      exact fun h hm => hi.opened h (hdropped h hm)
    · rw [hd, hl]
      exact fun h hm => hi.late h (hdropped h hm)
    · rw [hd]
      exact fun h hm => hi.paired h (hdropped h hm)
  own := hown
  others j _ :=
    { removals := Nat.le_of_eq (by rw [hl])
      handle := fun h _ hc => by rw [hh, hc]
      content := fun h _ _ doc hdoc => by rwa [hd]
      deleting := fun hj => ⟨by rwa [hl], fun hp => by rwa [hd]⟩
      created := Nat.le_of_eq (by rw [hl])
      deletions := Nat.le_of_eq (by rw [hl])
      acked := Nat.le_of_eq (by rw [hl])
      stored := fun n _ _ _ _ hs => by
        unfold StoredFrom Host.docs at hs ⊢
        rwa [hl, hd] }

theorem dropStaleWal_main {disk : Disk Suffix Doc} :
    (dropStaleWal disk).path .main = disk.path .main := by
  unfold dropStaleWal
  split
  · exact Disk.unlink_path_of_ne (by decide)
  · rfl

theorem dropStaleWal_wal {disk : Disk Suffix Doc} {n : Nat}
    (h : (dropStaleWal disk).path .wal = some n) :
    disk.path .wal = some n ∧ (disk.path .main).isSome := by
  unfold dropStaleWal at h
  split at h
  · rw [Disk.unlink_path_self] at h
    cases h
  · next hmain => exact ⟨h, by simpa [Option.isSome_iff_ne_none] using hmain⟩

theorem dropStaleWal_fresh {disk : Disk Suffix Doc} : (dropStaleWal disk).fresh = disk.fresh := by
  unfold dropStaleWal
  split <;> rfl

theorem dropStaleWal_content {disk : Disk Suffix Doc} :
    (dropStaleWal disk).content = disk.content := by
  unfold dropStaleWal
  split <;> rfl

theorem dropStaleWal_read {disk : Disk Suffix Doc} :
    (dropStaleWal disk).read .main ++ (dropStaleWal disk).read .wal =
      if (disk.path .main).isSome then disk.read .main ++ disk.read .wal else [] := by
  cases hm : disk.path .main with
  | none =>
    have hwal : (dropStaleWal disk).path .wal = none := by
      rw [dropStaleWal, hm]
      exact Disk.unlink_path_self
    rw [Disk.read_of_none (dropStaleWal_main.trans hm), Disk.read_of_none hwal]
    rfl
  | some m =>
    have hsame : dropStaleWal disk = disk := by
      rw [dropStaleWal, hm]
      rfl
    rw [hsame]
    rfl

/-- The files after `open_handle`: what was at the paths, or new and empty files. -/
structure Opened (disk : Disk Suffix Doc) (removals : Nat) (disk' : Disk Suffix Doc) (h : Handle) :
    Prop where
  main : disk'.path .main = some h.main
  wal : disk'.path .wal = some h.wal
  removals : h.removals = removals
  fresh : disk.fresh ≤ disk'.fresh
  content : ∀ p, ∀ n < disk.fresh, disk'.content p n = disk.content p n
  docs : h.docs disk' =
    if (disk.path .main).isSome then disk.read .main ++ disk.read .wal else []
  oldMain : h.main < disk.fresh → disk.path .main = some h.main
  oldWal : h.wal < disk.fresh → disk.path .wal = some h.wal ∧ disk.path .main = some h.main

theorem openHandle_spec (disk : Disk Suffix Doc) (removals : Nat) :
    Opened disk removals (openHandle disk removals).1 (openHandle disk removals).2 := by
  let disk₀ := dropStaleWal disk
  let disk₁ := (disk₀.create .main).1
  let disk₂ := (disk₁.create .wal).1
  have hfresh₀ : disk₀.fresh = disk.fresh := dropStaleWal_fresh
  have hfresh₁ : disk₀.fresh ≤ disk₁.fresh := Disk.create_fresh
  have hfresh₂ : disk₁.fresh ≤ disk₂.fresh := Disk.create_fresh
  have hmain : (disk₂.create .shm).1.path .main = some (disk₀.create .main).2 := by
    rw [Disk.create_path_of_ne (by decide), Disk.create_path_of_ne (by decide)]
    exact Disk.create_path_self
  have hwal : (disk₂.create .shm).1.path .wal = some (disk₁.create .wal).2 := by
    rw [Disk.create_path_of_ne (by decide)]
    exact Disk.create_path_self
  refine ⟨hmain, hwal, rfl, ?_, ?_, ?_, ?_, ?_⟩
  · exact Nat.le_trans (by omega) (Disk.create_fresh (d := disk₂) (p := Suffix.shm))
  · intro p n hn
    show (disk₂.create .shm).1.content p n = disk.content p n
    rw [Disk.create_content (by omega), Disk.create_content (by omega),
      Disk.create_content (by omega), dropStaleWal_content]
  · show (disk₂.create .shm).1.content .main (disk₀.create .main).2 ++
        (disk₂.create .shm).1.content .wal (disk₁.create .wal).2 = _
    rw [← Disk.read_of_path hmain, ← Disk.read_of_path hwal]
    simp only [disk₂, disk₁, Disk.create_read]
    exact dropStaleWal_read
  · intro hlt
    rcases Disk.create_inode (d := disk₀) (p := Suffix.main) with h | ⟨-, h⟩
    · exact dropStaleWal_main.symm.trans h
    · have hlt' : (disk₀.create .main).2 < disk.fresh := hlt
      omega
  · intro hlt
    have hlt' : (disk₁.create .wal).2 < disk.fresh := hlt
    rcases Disk.create_inode (d := disk₁) (p := Suffix.wal) with h | ⟨-, h⟩
    · have hwal₀ : disk₀.path .wal = some (disk₁.create .wal).2 := by
        rw [← h, Disk.create_path_of_ne (by decide)]
      -- A WAL that was there is left only beside a file that was there too.
      obtain ⟨hold, hsome⟩ := dropStaleWal_wal hwal₀
      obtain ⟨m, hm⟩ := Option.isSome_iff_exists.mp hsome
      have hnum : (disk₀.create .main).2 = m := by
        rw [Disk.create_old (dropStaleWal_main.trans hm)]
      exact ⟨hold, hm.trans (congrArg some hnum.symm)⟩
    · omega

theorem open_kept {cached : Option Handle} {dropped : List Handle} (hi : HostInv c)
    (hnone : c.handle = none) (hidle : c.ledger.deleting = [])
    (hcached : ∀ h, cached = some h → h = (openHandle c.disk c.ledger.removals).2)
    (hdropped : ∀ h ∈ dropped, h = (openHandle c.disk c.ledger.removals).2 ∨ h ∈ c.dropped)
    (hown : Assertion { c with
      disk := (openHandle c.disk c.ledger.removals).1, handle := cached, dropped, held } i t') :
    Kept c { c with
      disk := (openHandle c.disk c.ledger.removals).1, handle := cached, dropped, held } i t' := by
  have ho := openHandle_spec c.disk c.ledger.removals
  have hsub : ∀ doc ∈ (openHandle c.disk c.ledger.removals).2.docs
      (openHandle c.disk c.ledger.removals).1, c.ledger.deletions ≤ doc.deletions := by
    rw [ho.docs]
    exact hi.recent
  refine ⟨⟨?_, ?_, ?_, hi.created, ?_, ?_, ?_⟩, hown, ?_⟩
  · intro hne
    exact absurd hidle hne
  · intro h hh
    rw [hcached h hh]
    exact ⟨ho.main, ho.wal, ho.removals⟩
  · rw [docs_at ho.main ho.wal]
    exact hsub
  · intro h hm
    rcases hdropped h hm with rfl | hold
    · exact ⟨Disk.bounded _ _ _ ho.main, Disk.bounded _ _ _ ho.wal⟩
    · obtain ⟨hmain, hwal⟩ := hi.opened h hold
      exact ⟨Nat.lt_of_lt_of_le hmain ho.fresh, Nat.lt_of_lt_of_le hwal ho.fresh⟩
  · intro h hm hpath doc hdoc
    rcases hdropped h hm with rfl | hold
    · exact hsub doc (List.mem_append_right _ hdoc)
    · obtain ⟨hmain, hwal⟩ := hi.opened h hold
      have heq : (openHandle c.disk c.ledger.removals).2.main = h.main :=
        Option.some.inj (ho.main.symm.trans hpath)
      refine hi.late h hold ?_ doc (by rwa [← ho.content .wal _ hwal])
      rw [← heq]
      exact ho.oldMain (heq ▸ hmain)
  · intro h hm hpath
    rcases hdropped h hm with rfl | hold
    · exact Or.inr ho.main
    · have heq : (openHandle c.disk c.ledger.removals).2.wal = h.wal :=
        Option.some.inj (ho.wal.symm.trans hpath)
      obtain ⟨hwal, hmain⟩ := ho.oldWal (heq ▸ (hi.opened h hold).2)
      rcases hi.paired h hold (heq ▸ hwal) with hgone | hsame
      · cases hgone.symm.trans hmain
      · exact Or.inr (by rw [← hsame, hmain]; exact ho.main)
  · intro j _
    refine ⟨Nat.le_refl _, ?_, ?_, ?_, Nat.le_refl _, Nat.le_refl _, Nat.le_refl _, ?_⟩
    · intro h _ hc
      rw [hnone] at hc
      cases hc
    · intro h _ hc
      rw [hnone] at hc
      cases hc
    · intro hj
      rw [hidle] at hj
      cases hj
    · intro n _ _ _ hsome _
      rw [hnone] at hsome
      cases hsome

theorem getOrOpen_held (hi : HostInv c) :
    Held { (getOrOpen c).1 with held } (getOrOpen c).2 := by
  unfold getOrOpen
  split
  · next h hc => exact ⟨Nat.le_of_eq (hi.cached h hc).2.2, fun _ => hc⟩
  · exact ⟨Nat.le_of_eq (openHandle_spec c.disk c.ledger.removals).removals, fun _ => rfl⟩

theorem getOrOpen_kept (hi : HostInv c) (hidle : c.handle = none → c.ledger.deleting = [])
    (hown : Assertion { (getOrOpen c).1 with held } i t') :
    Kept c { (getOrOpen c).1 with held } i t' := by
  unfold getOrOpen at hown ⊢
  split
  · next h hc =>
    simp only [hc] at hown
    rw [← hc] at hown
    exact kept_of_same hi rfl (fun _ hm => hm) rfl rfl hown
  · next hc =>
    simp only [hc] at hown
    exact open_kept hi hc (hidle hc) (fun h hh => (Option.some.inj hh).symm)
      (fun h hm => Or.inr hm) hown

theorem append_kept {doc : Doc} (hi : HostInv c) (hheld : Held c h)
    (hdoc : doc.deletions = c.ledger.deletions) :
    Kept c { c with disk := c.disk.append .wal h.wal doc } i (.running rq (.ack h doc)) where
  inv := by
    refine ⟨hi.away, hi.cached, ?_, hi.created, hi.opened, ?_, hi.paired⟩
    · intro x hx
      obtain ⟨m, hm, hx | ⟨n, hn, hx⟩⟩ := mem_docs.mp hx
      · rcases Disk.mem_append.mp hx with hx | ⟨⟨hp, -⟩, -⟩
        · exact hi.recent x (mem_docs.mpr ⟨m, hm, Or.inl hx⟩)
        · cases hp
      · rcases Disk.mem_append.mp hx with hx | ⟨-, rfl⟩
        · exact hi.recent x (mem_docs.mpr ⟨m, hm, Or.inr ⟨n, hn, hx⟩⟩)
        · exact Nat.le_of_eq hdoc.symm
    · intro g hg hpath x hx
      rcases Disk.mem_append.mp hx with hx | ⟨-, rfl⟩
      · exact hi.late g hg hpath x hx
      · exact Nat.le_of_eq hdoc.symm
  own := ⟨hheld, fun _ => List.mem_append_right _ (Disk.mem_append.mpr (Or.inr ⟨⟨rfl, rfl⟩, rfl⟩))⟩
  others j _ := by
    refine ⟨Nat.le_refl _, fun _ _ hc => hc, ?_, fun hj => ⟨hj, fun hp => hp⟩, Nat.le_refl _,
      Nat.le_refl _, Nat.le_refl _, ?_⟩
    · intro g _ _ x hx
      rcases List.mem_append.mp hx with hx | hx
      · exact List.mem_append_left _ (Disk.mem_append.mpr (Or.inl hx))
      · exact List.mem_append_right _ (Disk.mem_append.mpr (Or.inl hx))
    · intro n _ _ _ _ hs x hx
      obtain ⟨m, hm, hx | ⟨k, hk, hx⟩⟩ := mem_docs.mp (hs x hx)
      · exact mem_docs.mpr ⟨m, hm, Or.inl (Disk.mem_append.mpr (Or.inl hx))⟩
      · exact mem_docs.mpr ⟨m, hm, Or.inr ⟨k, hk, Disk.mem_append.mpr (Or.inl hx)⟩⟩

theorem ack_kept {doc : Doc} (hi : HostInv c) (hown : Assertion c i (.running rq (.ack h doc)))
    (hplace : c.ledger.created ≤ h.removals) :
    Kept c { c.release h with ledger := c.ledger.addAck doc } i (.done rq .written) where
  inv := ⟨hi.away, hi.cached, hi.recent, hi.created, hi.opened, hi.late, hi.paired⟩
  own := trivial
  others j _ := by
    obtain ⟨⟨hle, hcached⟩, hdoc⟩ := hown
    refine ⟨Nat.le_refl _, fun _ _ hc => hc, fun _ _ _ _ hx => hx, fun hj => ⟨hj, fun hp => hp⟩,
      Nat.le_refl _, Nat.le_refl _, by simp [Ledger.addAck], ?_⟩
    intro n hn hk _ _ hs x hx
    simp only [Ledger.addAck, List.drop_append_of_le_length hn, List.mem_append,
      List.mem_singleton] at hx
    rcases hx with hx | rfl
    · exact hs x hx
    · -- No handle was dropped since the newest creation, so the write went through the cached one.
      have hnow : h.removals = c.ledger.removals := by omega
      show x ∈ c.docs
      rw [hi.docs (hcached hnow)]
      exact hdoc hnow

theorem reply_kept {removals : Nat} (hi : HostInv c)
    (hown : Assertion c i (.running rq (.reply removals))) :
    Kept c { c with ledger := c.ledger.addCreation removals } i
      (.done rq (.created removals c.ledger.acked.length)) where
  inv := ⟨hi.away, hi.cached, hi.recent, Nat.max_le.mpr ⟨hi.created, hown.1⟩, hi.opened, hi.late,
    hi.paired⟩
  own := by
    refine ⟨Nat.le_max_right _ _, Nat.le_refl _, hown.2, ?_⟩
    intro _ x hx
    simp [Ledger.addCreation] at hx
  others j _ := ⟨Nat.le_refl _, fun _ _ hc => hc, fun _ _ _ _ hx => hx,
    fun hj => ⟨hj, fun hp => hp⟩, Nat.le_max_left _ _, Nat.le_refl _, Nat.le_refl _,
    fun _ _ _ _ _ hs => hs⟩

theorem removeHandle_kept (hi : HostInv c) :
    Kept c { c with
        handle := none
        dropped := c.handle.toList ++ c.dropped
        ledger := c.ledger.remove i } i
      (.running rq (.unlink .main)) where
  inv := by
    refine ⟨fun _ => rfl, nofun, hi.recent, Nat.le_succ_of_le hi.created, ?_, ?_, ?_⟩
    · intro h hm
      rcases List.mem_append.mp hm with hm | hm
      · obtain ⟨hmain, hwal, -⟩ := hi.cached h (Option.mem_toList.mp hm)
        exact ⟨c.disk.bounded _ _ hmain, c.disk.bounded _ _ hwal⟩
      · exact hi.opened h hm
    · intro h hm hpath doc hdoc
      rcases List.mem_append.mp hm with hm | hm
      · refine hi.recent doc ?_
        rw [hi.docs (Option.mem_toList.mp hm)]
        exact List.mem_append_right _ hdoc
      · exact hi.late h hm hpath doc hdoc
    · intro h hm hpath
      rcases List.mem_append.mp hm with hm | hm
      · exact Or.inr (hi.cached h (Option.mem_toList.mp hm)).1
      · exact hi.paired h hm hpath
  own := List.mem_cons_self
  others j _ := by
    refine ⟨Nat.le_succ _, ?_, fun _ _ _ _ hx => hx,
      fun hj => ⟨List.mem_cons_of_mem _ hj, fun hp => hp⟩, Nat.le_refl _, Nat.le_refl _,
      Nat.le_refl _, ?_⟩
    · intro h heq
      simp [Ledger.remove] at heq
    · intro n _ _ heq
      simp [Ledger.remove] at heq

theorem unlink_kept {suffix : Suffix} (hi : HostInv c)
    (hcached : ∀ h, c.handle = some h → suffix = .shm)
    (hown : Assertion { c with disk := c.disk.unlink suffix } i t') :
    Kept c { c with disk := c.disk.unlink suffix } i t' where
  inv := by
    refine ⟨hi.away, ?_, ?_, hi.created, hi.opened, ?_, ?_⟩
    · intro h hh
      obtain ⟨hmain, hwal, hremovals⟩ := hi.cached h hh
      cases hcached h hh
      refine ⟨?_, ?_, hremovals⟩
      · rwa [Disk.unlink_path_of_ne (by decide)]
      · rwa [Disk.unlink_path_of_ne (by decide)]
    · intro x hx
      obtain ⟨m, hm, hx | ⟨n, hn, hx⟩⟩ := mem_docs.mp hx
      · exact hi.recent x (mem_docs.mpr ⟨m, Disk.unlink_path_some hm, Or.inl hx⟩)
      · exact hi.recent x (mem_docs.mpr
          ⟨m, Disk.unlink_path_some hm, Or.inr ⟨n, Disk.unlink_path_some hn, hx⟩⟩)
    · exact fun h hm hpath => hi.late h hm (Disk.unlink_path_some hpath)
    · intro h hm hpath
      rcases hi.paired h hm (Disk.unlink_path_some hpath) with hnone | hmain
      · exact Or.inl (Disk.unlink_path_none hnone)
      · by_cases hs : suffix = .main
        · exact Or.inl (by rw [hs, Disk.unlink_path_self])
        · exact Or.inr (by rwa [Disk.unlink_path_of_ne (Ne.symm hs)])
  own := hown
  others j _ := by
    refine ⟨Nat.le_refl _, fun _ _ hc => hc, fun _ _ _ _ hx => hx,
      fun hj => ⟨hj, fun hp => Disk.unlink_path_none hp⟩, Nat.le_refl _, Nat.le_refl _,
      Nat.le_refl _, ?_⟩
    intro n _ _ _ hsome hs x hx
    obtain ⟨h, hh⟩ := Option.isSome_iff_exists.mp hsome
    cases hcached h hh
    obtain ⟨m, hm, hx⟩ := mem_docs.mp (hs x hx)
    refine mem_docs.mpr ⟨m, ?_, ?_⟩
    · rwa [Disk.unlink_path_of_ne (by decide)]
    · rwa [Disk.unlink_path_of_ne (by decide)]

theorem leave_kept {deletions : Nat} (hi : HostInv c) (hle : c.ledger.deletions ≤ deletions)
    (hgone : c.ledger.deletions < deletions → c.disk.path .main = none)
    (hown : Assertion { c with ledger := { c.ledger.leave i with deletions } } i t') :
    Kept c { c with ledger := { c.ledger.leave i with deletions } } i t' where
  inv := by
    refine ⟨?_, hi.cached, ?_, hi.created, hi.opened, ?_, hi.paired⟩
    · intro hne
      apply hi.away
      intro hnil
      exact hne (by simp [Ledger.leave, hnil])
    · intro x hx
      have hx' : x ∈ c.docs := hx
      by_cases hlt : c.ledger.deletions < deletions
      · rw [docs_none (hgone hlt)] at hx'
        cases hx'
      · have := hi.recent x hx'
        show deletions ≤ x.deletions
        omega
    · intro h hm hpath x hx
      by_cases hlt : c.ledger.deletions < deletions
      · cases (hgone hlt).symm.trans hpath
      · have := hi.late h hm hpath x hx
        show deletions ≤ x.deletions
        omega
  own := hown
  others j hj := by
    refine ⟨Nat.le_refl _, fun _ _ hc => hc, fun _ _ _ _ hx => hx, ?_, Nat.le_refl _, hle,
      Nat.le_refl _, fun _ _ _ _ _ hs => hs⟩
    intro hmem
    exact ⟨List.mem_filter.mpr ⟨hmem, by simpa using hj⟩, fun hp => hp⟩

/-! ## What a connection that closes keeps -/

theorem mem_pour_main {m : Nat} {x : Doc} :
    x ∈ (c.disk.pour .wal h.wal .main h.main).content .main m ↔
      x ∈ c.disk.content .main m ∨ (m = h.main ∧ x ∈ c.disk.content .wal h.wal) := by
  by_cases hm : m = h.main
  · subst hm
    rw [Disk.pour_to (by decide), List.mem_append]
    simp
  · rw [Disk.pour_other (by simp) (by simp [hm])]
    simp [hm]

theorem mem_pour_wal {n : Nat} {x : Doc} :
    x ∈ (c.disk.pour .wal h.wal .main h.main).content .wal n ↔
      x ∈ c.disk.content .wal n ∧ n ≠ h.wal := by
  by_cases hn : n = h.wal
  · subst hn
    rw [Disk.pour_from]
    simp
  · rw [Disk.pour_other (by simp [hn]) (by simp)]
    simp [hn]

theorem pour_kept {dropped : List Handle} (hi : HostInv c) (hh : h ∈ c.dropped)
    (hsub : ∀ g ∈ dropped, g ∈ c.dropped) (hother : ∀ g, c.handle = some g → g.main ≠ h.main) :
    Kept c { c with dropped, disk := c.disk.pour .wal h.wal .main h.main } i (.closing .shm) := by
  have hkeep : ∀ g, c.handle = some g → ∀ x ∈ g.docs c.disk,
      x ∈ g.docs (c.disk.pour .wal h.wal .main h.main) := by
    intro g hg x hx
    obtain ⟨hmain, hwal, -⟩ := hi.cached g hg
    rcases List.mem_append.mp hx with hx | hx
    · exact List.mem_append_left _ (mem_pour_main.mpr (Or.inl hx))
    · refine List.mem_append_right _ (mem_pour_wal.mpr ⟨hx, ?_⟩)
      intro heq
      -- With one WAL the two handles would have one file, and this is the last one to close it.
      rcases hi.paired h hh (heq ▸ hwal) with hnone | hsame
      · cases hnone.symm.trans hmain
      · exact hother g hg (Option.some.inj (hmain.symm.trans hsame))
  refine ⟨⟨hi.away, hi.cached, ?_, hi.created, ?_, ?_, ?_⟩, ?_, ?_⟩
  · intro x hx
    obtain ⟨m, hm, hx | ⟨n, hn, hx⟩⟩ := mem_docs.mp hx
    · rcases mem_pour_main.mp hx with hfile | ⟨hsame, hwal⟩
      · exact hi.recent x (mem_docs.mpr ⟨m, hm, Or.inl hfile⟩)
      · exact hi.late h hh (hsame ▸ hm) x hwal
    · exact hi.recent x (mem_docs.mpr ⟨m, hm, Or.inr ⟨n, hn, (mem_pour_wal.mp hx).1⟩⟩)
  · exact fun g hg => hi.opened g (hsub g hg)
  · exact fun g hg hpath x hx => hi.late g (hsub g hg) hpath x (mem_pour_wal.mp hx).1
  · exact fun g hg => hi.paired g (hsub g hg)
  · show Suffix.shm ≠ Suffix.main
    decide
  · intro j _
    refine ⟨Nat.le_refl _, fun _ _ hc => hc, fun g _ hg => hkeep g hg,
      fun hj => ⟨hj, fun hp => hp⟩, Nat.le_refl _, Nat.le_refl _, Nat.le_refl _, ?_⟩
    intro n _ _ _ hsome hs x hx
    obtain ⟨g, hg⟩ := Option.isSome_iff_exists.mp hsome
    obtain ⟨hmain, hwal, -⟩ := hi.cached g hg
    have hdocs : Host.docs { c with dropped, disk := c.disk.pour .wal h.wal .main h.main } =
        g.docs (c.disk.pour .wal h.wal .main h.main) := docs_at hmain hwal
    rw [hdocs]
    exact hkeep g hg x (hi.docs hg ▸ hs x hx)

theorem closeHandle_kept {cleans : Bool} (hi : HostInv c)
    (hclose : closeHandle c h cleans = some (c', t')) : Kept c c' i t' := by
  unfold closeHandle at hclose
  split at hclose
  · next hfree =>
    cases cleans with
    | false =>
      cases hclose
      exact kept_of_same hi rfl (fun _ hm => List.mem_of_mem_erase hm) rfl rfl trivial
    | true =>
      simp only [if_true] at hclose
      split at hclose
      · next hlast =>
        cases hclose
        refine pour_kept hi hfree.1 (fun _ hm => List.mem_of_mem_erase hm) ?_
        intro g hg
        have hg' : g ∈ c.handle.toList ++ c.dropped.erase h :=
          List.mem_append_left _ (Option.mem_toList.mpr hg)
        simpa using List.all_eq_true.mp hlast g hg'
      · cases hclose
  · cases hclose

/-! ## Every step -/

theorem start_kept (hi : HostInv c) (h : start c rq = (c', t')) : Kept c c' i t' := by
  unfold start at h
  split at h
  · split at h <;> cases h <;> exact kept_of_same hi rfl (fun _ hm => hm) rfl rfl trivial
  · split at h <;> cases h <;> exact kept_of_same hi rfl (fun _ hm => hm) rfl rfl trivial
  · split at h
    · cases h
      exact kept_of_same hi rfl (fun _ hm => hm) rfl rfl trivial
    · cases h
      exact kept_of_same hi rfl (fun _ hm => hm) rfl rfl (Nat.le_refl _)
  · split at h <;> cases h <;> exact kept_of_same hi rfl (fun _ hm => hm) rfl rfl trivial

theorem use_kept (hi : HostInv c) (hheld : Held c h) (hs : use c h rq = (c', t')) :
    Kept c c' i t' := by
  unfold use at hs
  split at hs
  · cases hs
    exact append_kept hi hheld rfl
  · cases hs
    exact kept_of_same hi rfl (fun _ hm => hm) rfl rfl trivial

theorem statement_kept {pc : Pc} (hi : HostInv c) (hown : Assertion c i (.running rq pc))
    (hok : cleanly c i (.running rq pc) .run) (h : statement c i rq pc = (c', t')) :
    Kept c c' i t' := by
  obtain ⟨-, hopen, hplace, -⟩ := hok
  have haway : i ∈ c.ledger.deleting → ∀ {suffix : Suffix} (g : Handle), c.handle = some g →
      suffix = .shm := by
    intro hmem _ g hg
    rw [hi.away (List.ne_nil_of_mem hmem)] at hg
    cases hg
  cases pc with
  | start => exact start_kept hi h
  | openDb =>
    cases h
    exact getOrOpen_kept hi (hopen (Or.inl rfl) rfl) (getOrOpen_held hi)
  | use handle => exact use_kept hi hown h
  | ack handle doc =>
    cases h
    exact ack_kept hi hown (hplace rfl handle rfl)
  | initDatabase removals =>
    cases h
    refine getOrOpen_kept hi (hopen (Or.inl rfl) rfl) ⟨?_, ?_⟩
    · unfold getOrOpen
      split <;> exact hown
    · intro _
      unfold getOrOpen
      split
      · next hc => rw [hc]; rfl
      · rfl
  | reply removals =>
    cases h
    exact reply_kept hi hown
  | removeHandle =>
    cases h
    exact removeHandle_kept hi
  | unlink suffix =>
    cases suffix with
    | main =>
      cases h
      exact unlink_kept hi (haway hown) ⟨hown, Disk.unlink_path_self⟩
    | wal | shm =>
      cases h
      exact unlink_kept hi (haway hown.1) ⟨hown.1, Disk.unlink_path_none hown.2⟩
  | deleteRecord =>
    cases h
    exact kept_of_same hi rfl (fun _ hm => hm) rfl rfl hown
  | deleteGrants =>
    cases h
    exact leave_kept hi (Nat.le_succ _) (fun _ => hown.2) (Nat.le_refl _)

theorem failure_kept {pc : Pc} (hi : HostInv c) (hown : Assertion c i (.running rq pc))
    (hok : cleanly c i (.running rq pc) .fail) (h : failure c i rq pc = some (c', t')) :
    Kept c c' i t' := by
  cases pc with
  | start | use _ | ack _ _ =>
    cases h
    exact kept_of_same hi rfl (fun _ hm => hm) rfl rfl trivial
  | openDb | initDatabase _ =>
    simp only [failure] at h
    split at h
    · cases h
      exact kept_of_same hi rfl (fun _ hm => hm) rfl rfl trivial
    · cases h
  | reply _ | removeHandle => cases h
  | unlink suffix =>
    cases h
    cases suffix with
    | main => exact absurd rfl (hok.1 rfl)
    | wal | shm => exact kept_of_same hi rfl (fun _ hm => hm) rfl rfl hown
  | deleteRecord | deleteGrants =>
    cases h
    exact leave_kept hi (Nat.le_refl _) (fun hlt => absurd hlt (Nat.lt_irrefl _)) trivial

theorem openFailure_kept {pc : Pc} (hi : HostInv c)
    (hok : cleanly c i (.running rq pc) .openFailed) (h : openFailure c rq pc = some (c', t')) :
    Kept c c' i t' := by
  cases pc with
  | openDb | initDatabase _ =>
    simp only [openFailure] at h
    split at h
    · next hnone =>
      rw [Option.isNone_iff_eq_none] at hnone
      cases h
      have hidle := hok.2.1 (Or.inr rfl) rfl hnone
      have hkept : Kept c
          { c with
            disk := (openHandle c.disk c.ledger.removals).1
            handle := none
            dropped := (openHandle c.disk c.ledger.removals).2 :: c.dropped }
          i (.done rq (.error .internal)) :=
        open_kept hi hnone hidle nofun (fun h hm => List.mem_cons.mp hm) trivial
      rwa [← hnone] at hkept
    · cases h
  | start | use _ | ack _ _ | reply _ | removeHandle | unlink _ | deleteRecord | deleteGrants =>
    cases h

theorem removal_kept {suffix : Suffix} (hi : HostInv c)
    (hown : Assertion c i (.closing suffix)) (hok : closedApart c (.closing suffix) .run) :
    Kept c { c with disk := c.disk.unlink suffix } i (afterClosing suffix) := by
  refine unlink_kept hi ?_ ?_
  · intro h hh
    cases suffix with
    | main => exact absurd rfl hown
    | wal => cases (hok rfl rfl).symm.trans hh
    | shm => rfl
  · cases suffix with
    | main | wal => trivial
    | shm => exact nofun

theorem drop_keeps : Keeps next cleanly (fun (_ : Unit) c => HostInv c)
    (fun _ c i t => Assertion c i t) := by
  rintro - c i t a c' t' hi hown hok hnext
  have hkept : Kept c c' i t' := by
    match t, a with
    | .idle, .arrive rq =>
      cases hnext
      exact kept_of_same hi rfl (fun _ hm => hm) rfl rfl trivial
    | .running rq pc, .run => exact statement_kept hi hown hok (Option.some.inj hnext)
    | .running rq pc, .fail => exact failure_kept hi hown hok hnext
    | .running rq pc, .openFailed => exact openFailure_kept hi hok hnext
    | .idle, .close h cleans => exact closeHandle_kept hi hnext
    | .closing suffix, .run =>
      cases hnext
      exact removal_kept hi hown hok.2.2.2
    | .closing suffix, .fail =>
      cases hnext
      refine kept_of_same hi rfl (fun _ hm => hm) rfl rfl ?_
      cases suffix with
      | main | wal => trivial
      | shm => exact nofun
    | .idle, .run | .idle, .fail | .idle, .openFailed | .running _ _, .arrive _
    | .running _ _, .close _ _ | .closing _, .arrive _ | .closing _, .openFailed
    | .closing _, .close _ _ | .done _ _, _ | .closed, _ => cases hnext
  exact ⟨(), hkept.inv, hkept.own, fun j q hj hq => hq.undisturbed hi (hkept.others j hj)⟩

/-! ## Any number of requests around a deletion -/

theorem boot_asserted (registered : Bool) (disk : Disk Suffix Doc) :
    Asserted (fun (_ : Unit) c => HostInv c) (fun _ c i t => Assertion c i t)
      (System.boot registered disk) :=
  ⟨(), ⟨fun _ => rfl, nofun, fun _ _ => Nat.zero_le _, Nat.le_refl _, nofun, nofun, nofun⟩,
    fun _ => trivial⟩

def oldDisk : Disk Suffix Doc where
  path := Function.update (fun _ => none) .main (some 0)
  content := fun p n => if p = .main ∧ n = 0 then [⟨"old", 0⟩] else []
  fresh := 1
  bounded := by
    intro p n h
    cases p <;> simp [Function.update] at h
    omega

def runs (i k : Nat) : List (Nat × Act) := List.replicate k (i, .run)

/-- A read has found the record when a deletion drops the handle, and opens the file before the
deletion removes it. Then the database is created again, written to and read. -/
def staleHandleRun : List (Nat × Act) :=
  [(0, .arrive .read)] ++ runs 0 1 ++ [(1, .arrive .delete)] ++ runs 1 2 ++ runs 0 1 ++ runs 1 5 ++
    [(2, .arrive .create)] ++ runs 2 3 ++ [(3, .arrive (.write "new"))] ++ runs 3 4 ++
    [(4, .arrive .read)] ++ runs 4 3

def failedUnlinkRun : List (Nat × Act) :=
  [(1, .arrive .delete)] ++ runs 1 2 ++ [(1, .fail)] ++ runs 1 4 ++ [(2, .arrive .create)] ++
    runs 2 3

/-- A deletion drops the handle, and its connection begins to close. It removes the WAL when the
database was created again and written to. -/
def lateCloseRun : List (Nat × Act) :=
  [(0, .arrive .read)] ++ runs 0 3 ++ [(1, .arrive .delete)] ++ runs 1 2 ++
    [(5, .close ⟨0, 1, 0⟩ true)] ++ runs 1 5 ++ [(2, .arrive .create)] ++ runs 2 3 ++
    [(3, .arrive (.write "new"))] ++ runs 3 4 ++ runs 5 2

def cleanRun : List (Nat × Act) :=
  [(0, .arrive (.write "lost"))] ++ runs 0 4 ++ [(1, .arrive .delete)] ++ runs 1 7 ++
    [(5, .close ⟨0, 1, 0⟩ true)] ++ runs 5 2 ++ [(2, .arrive .create)] ++ runs 2 3 ++
    [(3, .arrive (.write "new"))] ++ runs 3 4

end TinyLord.Registry
