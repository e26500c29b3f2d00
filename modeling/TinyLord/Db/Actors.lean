import TinyLord.Db.Registry
import TinyLord.Lib.Run

/-!
# One writer for each file

A writer actor is open until its handle has no owner left and its thread has come to its end. A
deletion drops the cached handle first and unlinks the file later, and a request may still own the
handle. So a second actor can open the same file, and the file can be unlinked under it.
-/

open Lib.Inodes Lib.Run

namespace TinyLord.Actors

open TinyLord.Registry (Suffix)

/-! ## Handles and their owners -/

/-- Who keeps an `Arc<DbHandle>`. -/
inductive Owner where
  | cache (name : String)
  | request (i : Nat)
  deriving DecidableEq

/-- A writer actor, with the owners of the handle that it serves. -/
structure Actor where
  inode : Nat
  owners : List Owner
  isOpen : Bool

inductive Thread where
  | idle
  /-- A request that keeps the handle of this actor. -/
  | using (id : Nat)
  /-- `drop_database`, with the files that are still to be removed. -/
  | dropping (name : String) (left : List Suffix)

structure State where
  disk : Disk (String × Suffix) Empty
  /-- The map of the registry: the actor of the cached handle. -/
  handles : String → Option Nat
  actors : List Actor
  threads : Nat → Thread

def State.start : State :=
  { disk := { path := fun _ => none, content := fun _ _ => [], fresh := 0, bounded := by simp }
    handles := fun _ => none
    actors := []
    threads := fun _ => .idle }

/-- How `open_handle` ends. -/
inductive Opening where
  | ok
  /-- The writer does not open its connection. -/
  | writerFailed
  /-- The writer is open, but the handle is not made: its read pool does not open, or the caller is
  gone. -/
  | handleFailed
  deriving DecidableEq

inductive Act where
  | getOrOpen (i : Nat) (name : String) (result : Opening)
  /-- The request is done with its handle. -/
  | release (i : Nat)
  /-- The first part of `drop_database`, under the lock. -/
  | remove (i : Nat) (name : String)
  /-- Its next file: `remove_file` works, or there is no file, or the failure is only logged. -/
  | unlink (i : Nat) (removed : Bool)
  /-- The thread of an actor that no handle keeps comes to its end. -/
  | exit (id : Nat)

/-- SQLite opens the files at their paths, and creates those that are not there. -/
def openFiles (disk : Disk (String × Suffix) Empty) (name : String) :
    Disk (String × Suffix) Empty × Nat :=
  let (disk, inode) := disk.create (name, .main)
  let (disk, _) := disk.create (name, .wal)
  let (disk, _) := disk.create (name, .shm)
  (disk, inode)

def addOwner (o : Owner) (a : Actor) : Actor := { a with owners := o :: a.owners }

def dropOwner (o : Owner) (a : Actor) : Actor := { a with owners := a.owners.erase o }

def setThread (s : State) (i : Nat) (t : Thread) : State :=
  { s with threads := Function.update s.threads i t }

def step (s : State) : Act → Option State
  | .getOrOpen i name result =>
    match s.threads i, s.handles name with
    | .idle, some id =>
      some (setThread { s with actors := s.actors.modify id (addOwner (.request i)) } i (.using id))
    | .idle, none =>
      let (disk, inode) := openFiles s.disk name
      match result with
      | .ok =>
        some (setThread { s with
          disk
          handles := Function.update s.handles name (some s.actors.length)
          actors := s.actors ++
            [{ inode, owners := [.request i, .cache name], isOpen := true }] }
          i (.using s.actors.length))
      | .writerFailed => some { s with disk }
      | .handleFailed =>
        some { s with disk, actors := s.actors ++ [{ inode, owners := [], isOpen := true }] }
    | _, _ => none
  | .release i =>
    match s.threads i with
    | .using id =>
      some (setThread { s with actors := s.actors.modify id (dropOwner (.request i)) } i .idle)
    | _ => none
  | .remove i name =>
    match s.threads i with
    | .idle =>
      let actors := match s.handles name with
        | some id => s.actors.modify id (dropOwner (.cache name))
        | none => s.actors
      some (setThread { s with actors, handles := Function.update s.handles name none } i
        (.dropping name [.main, .wal, .shm]))
    | _ => none
  | .unlink i removed =>
    match s.threads i with
    | .dropping _ [] => some (setThread s i .idle)
    | .dropping name (suffix :: left) =>
      let disk := if removed then s.disk.unlink (name, suffix) else s.disk
      some (setThread { s with disk } i (.dropping name left))
    | _ => none
  | .exit id =>
    match s.actors[id]? with
    | some a =>
      if a.owners = [] ∧ a.isOpen then
        some { s with actors := s.actors.modify id fun a => { a with isOpen := false } }
      else none
    | none => none

/-! ## The statement -/

/-- No two open actors are on the same file, and a cached handle's actor is open on the file that
is at the path. -/
structure SingleWriter (s : State) : Prop where
  one : ∀ (i j : Nat) (a b : Actor), s.actors[i]? = some a → s.actors[j]? = some b →
    a.isOpen = true → b.isOpen = true → a.inode = b.inode → i = j
  current : ∀ name id, s.handles name = some id → ∃ a : Actor, s.actors[id]? = some a ∧
    a.isOpen = true ∧ s.disk.path (name, .main) = some a.inode

/-- A `get_or_open` that misses the cache finds no actor still open on the file at the path, and
no deletion unlinks that file while a handle is cached again. -/
def orderly (s : State) : Act → Prop
  | .getOrOpen i name result =>
    s.threads i = .idle → s.handles name = none → result ≠ .writerFailed →
      ∀ a ∈ s.actors, a.isOpen = true → s.disk.path (name, .main) ≠ some a.inode
  | .unlink i removed =>
    ∀ name left, s.threads i = .dropping name (.main :: left) → removed = true →
      s.handles name = none
  | _ => True

/-! ## The invariant -/

/-- The cache owns the handles it has, so their actors do not come to their end. -/
structure Inv (s : State) : Prop where
  one : ∀ (i j : Nat) (a b : Actor), s.actors[i]? = some a → s.actors[j]? = some b →
    a.isOpen = true → b.isOpen = true → a.inode = b.inode → i = j
  cached : ∀ name id, s.handles name = some id → ∃ a : Actor, s.actors[id]? = some a ∧
    a.isOpen = true ∧ s.disk.path (name, .main) = some a.inode ∧ .cache name ∈ a.owners
  bounded : ∀ a ∈ s.actors, a.inode < s.disk.fresh

variable {s s' : State} {a : Act} {i id : Nat} {name : String} {result : Opening} {removed : Bool}

theorem Inv.singleWriter (h : Inv s) : SingleWriter s := by
  refine ⟨h.one, ?_⟩
  intro name id hid
  obtain ⟨a, ha, hopen, hpath, -⟩ := h.cached name id hid
  exact ⟨a, ha, hopen, hpath⟩

theorem Inv.setThread (h : Inv s) (i : Nat) (t : Thread) : Inv (setThread s i t) :=
  ⟨h.one, h.cached, h.bounded⟩

theorem Inv.modify (h : Inv s) {f : Actor → Actor} {handles : String → Option Nat}
    (hinode : ∀ a, (f a).inode = a.inode) (hopen : ∀ a, (f a).isOpen = true → a.isOpen = true)
    (hkeep : ∀ name k, handles name = some k → s.handles name = some k ∧ ∀ a : Actor,
      s.actors[k]? = some a → k = id → a.isOpen = true → .cache name ∈ a.owners →
        (f a).isOpen = true ∧ .cache name ∈ (f a).owners) :
    Inv { s with actors := s.actors.modify id f, handles } := by
  have hget : ∀ (k : Nat) (b : Actor), (s.actors.modify id f)[k]? = some b →
      ∃ a : Actor, s.actors[k]? = some a ∧ b = if id = k then f a else a := by
    intro k b hb
    rw [List.getElem?_modify] at hb
    obtain ⟨a, ha, rfl⟩ := Option.map_eq_some_iff.mp hb
    exact ⟨a, ha, rfl⟩
  have hsame : ∀ (k : Nat) (a : Actor), (if id = k then f a else a).inode = a.inode ∧
      ((if id = k then f a else a).isOpen = true → a.isOpen = true) := by
    intro k a
    split
    · exact ⟨hinode a, hopen a⟩
    · exact ⟨rfl, fun h => h⟩
  refine ⟨?_, ?_, ?_⟩
  · intro j k b c hb hc hbo hco hino
    obtain ⟨a₁, ha₁, rfl⟩ := hget j b hb
    obtain ⟨a₂, ha₂, rfl⟩ := hget k c hc
    rw [(hsame j a₁).1, (hsame k a₂).1] at hino
    exact h.one j k a₁ a₂ ha₁ ha₂ ((hsame j a₁).2 hbo) ((hsame k a₂).2 hco) hino
  · intro name k hk
    obtain ⟨hold, hstay⟩ := hkeep name k hk
    obtain ⟨a, ha, hao, hpath, hown⟩ := h.cached name k hold
    refine ⟨if id = k then f a else a, ?_, ?_, ?_, ?_⟩
    · simp only [List.getElem?_modify, ha, Option.map_eq_map, Option.map_some]
    · split
      · next hid => exact (hstay a ha hid.symm hao hown).1
      · exact hao
    · rw [(hsame k a).1]
      exact hpath
    · split
      · next hid => exact (hstay a ha hid.symm hao hown).2
      · exact hown
  · intro b hb
    obtain ⟨k, hk⟩ := List.mem_iff_getElem?.mp hb
    obtain ⟨a, ha, rfl⟩ := hget k b hk
    rw [(hsame k a).1]
    exact h.bounded a (List.mem_of_getElem? ha)

/-! ## Opening the files -/

/-- The main file that is there, or a new one. -/
structure Opened (d d' : Disk (String × Suffix) Empty) (name : String) (inode : Nat) : Prop where
  self : d'.path (name, .main) = some inode
  other : ∀ n, n ≠ name → d'.path (n, .main) = d.path (n, .main)
  fresh : d.fresh ≤ d'.fresh
  inode : d.path (name, .main) = some inode ∨ inode = d.fresh

theorem openFiles_opened (d : Disk (String × Suffix) Empty) (name : String) :
    Opened d (openFiles d name).1 name (openFiles d name).2 := by
  simp only [openFiles]
  refine ⟨?_, ?_, ?_, ?_⟩
  · rw [Disk.create_path_of_ne (by simp), Disk.create_path_of_ne (by simp), Disk.create_path_self]
  · intro n hn
    rw [Disk.create_path_of_ne (by simp), Disk.create_path_of_ne (by simp),
      Disk.create_path_of_ne (by simpa using hn)]
  · exact Disk.create_fresh.trans (Disk.create_fresh.trans Disk.create_fresh)
  · rcases Disk.create_inode (d := d) (p := (name, Suffix.main)) with h | ⟨-, h⟩
    · exact Or.inl h
    · exact Or.inr h

theorem Inv.opened {d : Disk (String × Suffix) Empty} {inode : Nat} (h : Inv s)
    (ho : Opened s.disk d name inode) (hmiss : s.handles name = none) :
    Inv { s with disk := d } := by
  refine ⟨h.one, ?_, fun a ha => (h.bounded a ha).trans_le ho.fresh⟩
  intro n id hid
  obtain ⟨a, ha, hopen, hpath, hown⟩ := h.cached n id hid
  have hne : n ≠ name := by
    rintro rfl
    simp [hmiss] at hid
  exact ⟨a, ha, hopen, (ho.other n hne).trans hpath, hown⟩

theorem Inv.newActor {d : Disk (String × Suffix) Empty} {inode : Nat} (h : Inv s)
    (ho : Opened s.disk d name inode) (hmiss : s.handles name = none)
    (hfree : ∀ a ∈ s.actors, a.isOpen = true → s.disk.path (name, .main) ≠ some a.inode)
    (owners : List Owner) :
    Inv { s with disk := d, actors := s.actors ++ [{ inode, owners, isOpen := true }] } := by
  have hbase := h.opened ho hmiss
  have hapart : ∀ (k : Nat) (b : Actor), s.actors[k]? = some b → b.isOpen = true →
      b.inode ≠ inode := by
    intro k b hb hbo hino
    have hmem := List.mem_of_getElem? hb
    rcases ho.inode with hpath | hnew
    · exact hfree b hmem hbo (hino ▸ hpath)
    · have := h.bounded b hmem
      omega
  have hget : ∀ (k : Nat) (b : Actor),
      (s.actors ++ [{ inode, owners, isOpen := true }])[k]? = some b →
      s.actors[k]? = some b ∨ (k = s.actors.length ∧ b.inode = inode) := by
    intro k b hb
    rcases Nat.lt_trichotomy k s.actors.length with hk | hk | hk
    · rw [List.getElem?_append_left hk] at hb
      exact Or.inl hb
    · subst hk
      simp only [List.getElem?_concat_length, Option.some.injEq] at hb
      exact Or.inr ⟨rfl, hb ▸ rfl⟩
    · rw [List.getElem?_eq_none (by simp; omega)] at hb
      cases hb
  refine ⟨?_, ?_, ?_⟩
  · intro j k b c hb hc hbo hco hino
    rcases hget j b hb with hb | ⟨rfl, hbi⟩ <;> rcases hget k c hc with hc | ⟨rfl, hci⟩
    · exact h.one j k b c hb hc hbo hco hino
    · exact absurd (hino.trans hci) (hapart j b hb hbo)
    · exact absurd (hino.symm.trans hbi) (hapart k c hc hco)
    · rfl
  · intro n id hid
    obtain ⟨a, ha, hrest⟩ := hbase.cached n id hid
    exact ⟨a, List.getElem?_append_left (List.getElem?_eq_some_iff.mp ha).1 ▸ ha, hrest⟩
  · intro b hb
    rcases List.mem_append.mp hb with hb | hb
    · exact hbase.bounded b hb
    · rw [List.mem_singleton.mp hb]
      exact d.bounded _ _ ho.self

theorem Inv.cache {a : Actor} (h : Inv s) (hnew : s.actors[id]? = some a)
    (hopen : a.isOpen = true) (hpath : s.disk.path (name, .main) = some a.inode)
    (hown : .cache name ∈ a.owners) :
    Inv { s with handles := Function.update s.handles name (some id) } := by
  refine ⟨h.one, ?_, h.bounded⟩
  intro n k hk
  simp only at hk
  by_cases hn : n = name
  · subst hn
    rw [Function.update_self, Option.some.injEq] at hk
    subst hk
    exact ⟨a, hnew, hopen, hpath, hown⟩
  · rw [Function.update_of_ne hn] at hk
    exact h.cached n k hk

/-! ## Every step -/

theorem inv_getOrOpen (h : Inv s) (hok : orderly s (.getOrOpen i name result))
    (hstep : step s (.getOrOpen i name result) = some s') : Inv s' := by
  simp only [step] at hstep
  split at hstep
  · next id hthread hhit =>
    cases hstep
    refine Inv.setThread (h.modify (f := addOwner (.request i)) (fun _ => rfl) (fun _ ho => ho) ?_)
      i _
    intro n k hk
    exact ⟨hk, fun a _ _ ho hown => ⟨ho, List.mem_cons_of_mem _ hown⟩⟩
  · next hthread hmiss =>
    have ho := openFiles_opened s.disk name
    have hfree := hok hthread hmiss
    cases result with
    | ok =>
      cases hstep
      refine Inv.setThread (Inv.cache (h.newActor ho hmiss (hfree (by simp))
        [.request i, .cache name]) List.getElem?_concat_length rfl ho.self (by simp)) i _
    | writerFailed =>
      cases hstep
      exact h.opened ho hmiss
    | handleFailed =>
      cases hstep
      exact h.newActor ho hmiss (hfree (by simp)) []
  · cases hstep

theorem inv_remove (h : Inv s) (hstep : step s (.remove i name) = some s') : Inv s' := by
  simp only [step] at hstep
  split at hstep
  · cases hstep
    have hgone : ∀ n k, Function.update s.handles name none n = some k →
        n ≠ name ∧ s.handles n = some k := by
      intro n k hk
      by_cases hn : n = name
      · subst hn
        simp at hk
      · rw [Function.update_of_ne hn] at hk
        exact ⟨hn, hk⟩
    cases hhit : s.handles name with
    | none =>
      refine Inv.setThread (s := { s with handles := Function.update s.handles name none })
        ⟨h.one, fun n k hk => h.cached n k (hgone n k hk).2, h.bounded⟩ i _
    | some id =>
      refine Inv.setThread (h.modify (f := dropOwner (.cache name)) (fun _ => rfl)
        (fun _ ho => ho) ?_) i _
      intro n k hk
      obtain ⟨hn, hold⟩ := hgone n k hk
      refine ⟨hold, fun a _ _ ho hown => ⟨ho, ?_⟩⟩
      exact (List.mem_erase_of_ne (by simpa using hn)).mpr hown
  · cases hstep

theorem inv_unlink (h : Inv s) (hok : orderly s (.unlink i removed))
    (hstep : step s (.unlink i removed) = some s') : Inv s' := by
  simp only [step] at hstep
  split at hstep
  · cases hstep
    exact h.setThread i _
  · next name suffix left hthread =>
    cases hstep
    refine Inv.setThread (s := { s with disk := _ }) ?_ i _
    split
    · next hremoved =>
      refine ⟨h.one, ?_, h.bounded⟩
      intro n id hid
      obtain ⟨a, ha, hopen, hpath, hown⟩ := h.cached n id hid
      have hne : (n, Suffix.main) ≠ (name, suffix) := by
        intro heq
        obtain ⟨rfl, rfl⟩ := Prod.mk.inj heq
        simp [hok n left hthread hremoved] at hid
      exact ⟨a, ha, hopen, (Disk.unlink_path_of_ne hne).trans hpath, hown⟩
    · exact h
  · cases hstep

theorem inv_step (h : Inv s) (hok : orderly s a) (hstep : step s a = some s') : Inv s' := by
  cases a with
  | getOrOpen i name result => exact inv_getOrOpen h hok hstep
  | release i =>
    simp only [step] at hstep
    split at hstep
    · cases hstep
      refine Inv.setThread (h.modify (f := dropOwner (.request i)) (fun _ => rfl)
        (fun _ ho => ho) ?_) i _
      intro n k hk
      refine ⟨hk, fun a _ _ ho hown => ⟨ho, ?_⟩⟩
      exact (List.mem_erase_of_ne (by simp)).mpr hown
    · cases hstep
  | remove i name => exact inv_remove h hstep
  | unlink i removed => exact inv_unlink h hok hstep
  | exit id =>
    simp only [step] at hstep
    split at hstep
    · next a ha =>
      split_ifs at hstep with hlast
      cases hstep
      refine h.modify (f := fun a => { a with isOpen := false }) (fun _ => rfl)
        (fun _ ho => by simp at ho) ?_
      intro n k hk
      refine ⟨hk, fun b hb hid _ hown => ?_⟩
      -- Nobody owns the handle, so it is not cached.
      subst hid
      rw [ha, Option.some.injEq] at hb
      subst hb
      simp [hlast.1] at hown
    · cases hstep

/-! ## The condition is exact -/

theorem breaks_getOrOpen (hstep : step s (.getOrOpen i name result) = some s')
    (hbad : ¬ orderly s (.getOrOpen i name result)) : ¬ SingleWriter s' := by
  simp only [orderly, not_forall, not_not] at hbad
  obtain ⟨hthread, hmiss, hresult, b, hb, hopen, hpath⟩ := hbad
  obtain ⟨k, hk⟩ := List.mem_iff_getElem?.mp hb
  have hlt : k < s.actors.length := (List.getElem?_eq_some_iff.mp hk).1
  have hsame : (openFiles s.disk name).2 = b.inode := by
    rcases (openFiles_opened s.disk name).inode with h | h
    · rw [hpath, Option.some.injEq] at h
      exact h.symm
    · have := s.disk.bounded _ _ hpath
      rcases Disk.create_inode (d := s.disk) (p := (name, Suffix.main)) with h' | ⟨h', -⟩
      · rw [hpath, Option.some.injEq] at h'
        exact h'.symm
      · simp [hpath] at h'
  have htwo : ∀ owners, s'.actors = s.actors ++
      [{ inode := (openFiles s.disk name).2, owners, isOpen := true }] → ¬ SingleWriter s' := by
    intro owners hactors hs
    have heq := hs.one k s.actors.length b _ (by rw [hactors, List.getElem?_append_left hlt, hk])
      (by rw [hactors]; exact List.getElem?_concat_length) hopen rfl hsame.symm
    omega
  simp only [step, hthread, hmiss] at hstep
  cases result with
  | writerFailed => exact absurd rfl hresult
  | ok =>
    cases hstep
    exact htwo _ rfl
  | handleFailed =>
    cases hstep
    exact htwo _ rfl

theorem breaks_unlink (hstep : step s (.unlink i removed) = some s')
    (hbad : ¬ orderly s (.unlink i removed)) : ¬ SingleWriter s' := by
  simp only [orderly, not_forall] at hbad
  obtain ⟨name, left, hthread, hremoved, hcached⟩ := hbad
  obtain ⟨id, hid⟩ := Option.ne_none_iff_exists'.mp hcached
  simp only [step, hthread, hremoved, if_true] at hstep
  cases hstep
  intro hs'
  obtain ⟨a, -, -, hpath⟩ := hs'.current name id hid
  simp [setThread] at hpath

/-- The actor has come to its end and the file is gone when the database is opened again. -/
def inTurn : List Act :=
  [.getOrOpen 0 "notes" .ok, .release 0, .remove 1 "notes", .exit 0, .unlink 1 true,
   .getOrOpen 2 "notes" .ok]

/-- Request 0 keeps the handle while the database is dropped, and request 2 opens it again. -/
def reopened : List Act :=
  [.getOrOpen 0 "notes" .ok, .remove 1 "notes", .getOrOpen 2 "notes" .ok]

end TinyLord.Actors
