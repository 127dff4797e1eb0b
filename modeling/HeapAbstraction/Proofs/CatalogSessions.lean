import HeapAbstraction.Storage
import HeapAbstraction.Proofs.Catalog

namespace HeapAbstraction

namespace Storage

variable {s s' : Storage} {path whole : Bytes} {place p q : Path} {steps : List Bytes} {db db' : Database} {hold : Hold}
  {c c' : Catalog}

theorem lookup_putItem (place q : Path) (item : Item) (items : List (Path × Item)) :
    (putItem place item items).lookup q = if q = place then some item else items.lookup q := by
  induction items with
  | nil => exact lookup_cons_ite q place item []
  | cons e items ih =>
    obtain ⟨p, i⟩ := e
    rw [putItem]
    by_cases hp : p = place
    · subst hp
      simp only [if_true, lookup_cons_ite]
      by_cases hq : q = p <;> simp [hq]
    · simp only [hp, if_false, lookup_cons_ite, ih]
      by_cases hq : q = p
      · simp [hq, hp]
      · simp [hq]

theorem mem_putItem {item i : Item} {items : List (Path × Item)} (hq : (q, i) ∈ items) (hne : q ≠ place) :
    (q, i) ∈ putItem place item items := by
  induction items with
  | nil => simp at hq
  | cons e items ih =>
    obtain ⟨p, j⟩ := e
    rw [putItem]
    rcases List.mem_cons.mp hq with heq | hq
    · cases heq
      simp [hne]
    · split
      · exact List.mem_cons_of_mem _ hq
      · exact List.mem_cons_of_mem _ (ih hq)

theorem mem_putItem_self (place : Path) (item : Item) (items : List (Path × Item)) :
    (place, item) ∈ putItem place item items := by
  induction items with
  | nil => exact List.mem_singleton_self _
  | cons e items ih =>
    obtain ⟨p, j⟩ := e
    rw [putItem]
    split
    · exact List.mem_cons_self
    · exact List.mem_cons_of_mem _ ih

theorem follow_eq (h : s.follow whole p steps = .ok q) : q = steps.foldl Path.walk p := by
  induction steps generalizing p with
  | nil =>
    cases h
    rfl
  | cons step steps ih =>
    simp only [follow] at h
    split at h
    · simp at h
    · split at h
      · simp at h
      · split at h
        · exact ih h
        · simp at h

theorem locate_eq (h : s.locate path = .ok place) : place = Path.ofBytes path := by
  rw [locate] at h
  split at h
  · simp at h
  · split at h
    · simp at h
    · split at h
      · simp at h
      · exact follow_eq h

section

variable (hwritten : s.items.lookup place = some (.database db .writer))

include hwritten

theorem isFile_of_put (h : (s.put place (.database db' hold)).isFile q = true) : s.isFile q = true := by
  have hlookup (p : Path) : (s.put place (.database db' hold)).items.lookup p =
      if p = place then some (.database db' hold) else s.items.lookup p := lookup_putItem ..
  by_cases hq : q = place
  · simp [isFile, item?, hlookup, hq] at h
  · simp only [isFile, item?, hlookup, if_neg hq] at h ⊢
    cases hitem : s.items.lookup q with
    | some i => simpa [hitem] using h
    | none =>
      simp only [hitem, Option.none_or, databaseFile?, hlookup] at h ⊢
      by_cases hparent : q.dropLast = place
      · -- a writer has all the files that anybody has
        simp only [hparent, if_true, hwritten] at h ⊢
        cases hlast : q.getLast? with
        | none => simp [hlast] at h
        | some name =>
          simp only [hlast] at h ⊢
          have hname : (databaseFiles.contains name || (decide (name = writerFile) && decide (hold = .writer))) = true := by
            by_contra hno
            rw [if_neg hno] at h
            cases h
          rw [Bool.or_eq_true, Bool.and_eq_true] at hname
          rw [if_pos (by simpa using hname.imp_right And.left)]
      · simpa [hparent] using h

theorem isDirectory_put (h : s.isDirectory q = true) : (s.put place (.database db' hold)).isDirectory q = true := by
  simp only [isDirectory, Bool.or_eq_true] at h ⊢
  refine h.imp_right fun hany => ?_
  rw [List.any_eq_true] at hany ⊢
  obtain ⟨⟨p, i⟩, hmem, hp⟩ := hany
  by_cases hplace : p = place
  · refine ⟨(place, .database db' hold), mem_putItem_self .., ?_⟩
    subst hplace
    rw [Bool.and_eq_true] at hp
    simp [hp.1]
  · exact ⟨(p, i), mem_putItem hmem hplace, hp⟩

theorem isFile_eq_false : s.isFile place = false := by simp [isFile, item?, hwritten]

theorem follow_put (h : s.follow whole p steps = .ok place) :
    (s.put place (.database db' hold)).follow whole p steps = .ok place := by
  have hfile {q : Path} (hq : s.isFile q = false) : (s.put place (.database db' hold)).isFile q = false := by
    rw [← Bool.not_eq_true] at hq ⊢
    exact fun h => hq (isFile_of_put hwritten h)
  induction steps generalizing p with
  | nil => exact h
  | cons step steps ih =>
    simp only [follow] at h ⊢
    split at h
    · simp at h
    · rename_i hp
      split at h
      · simp at h
      · rename_i hlength
        split at h
        · have hnext : s.isFile (p.walk step) = false := by
            cases steps with
            | nil =>
              cases h
              exact isFile_eq_false hwritten
            | cons step' steps =>
              simp only [follow] at h
              split at h
              · simp at h
              · rename_i hn
                simpa using hn
          rename_i hthere
          rw [hnext, Bool.false_or] at hthere
          rw [hfile (by simpa using hp), if_neg (by simp), if_neg hlength, isDirectory_put hwritten hthere,
            Bool.or_true, if_pos rfl]
          exact ih h
        · simp at h

theorem locate_put (h : s.locate path = .ok place) : (s.put place (.database db' hold)).locate path = .ok place := by
  rw [locate] at h ⊢
  split at h
  · simp at h
  · split at h
    · simp at h
    · split at h
      · simp at h
      · rename_i hzero hempty hlong
        rw [if_neg hzero, if_neg hempty, if_neg hlong]
        exact follow_put hwritten h

end

theorem item?_eq {i : Item} (h : s.items.lookup place = some i) : s.item? place = some i := by simp [item?, h]

theorem openAt_ok (h : s.openAt path place false = (s', .ok c)) :
    ∃ db, s'.items.lookup place = some (.database db .writer) ∧ Catalog.ofDatabase path false db = .ok c := by
  rw [openAt] at h
  split at h
  · simp at h
  · rename_i db held hfound
    split at h
    · simp at h
    · rename_i c' hc
      cases h
      obtain ⟨⟨db', hold⟩, -, hacquire⟩ := Option.bind_eq_some_iff.mp hfound
      obtain ⟨held', hheld, heq⟩ := Option.map_eq_some_iff.mp hacquire
      cases heq
      have hwriter : held = .writer := by
        cases hold <;> simp [Hold.acquire?] at hheld
        exact hheld.symm
      refine ⟨db', ?_, hc⟩
      rw [put, lookup_putItem, if_pos rfl, hwriter]

theorem openCatalog_ok (hpath : path ≠ []) (h : s.openCatalog path false = (s', .ok c)) :
    ∃ db, s'.items.lookup (Path.ofBytes path) = some (.database db .writer) ∧
      Catalog.ofDatabase path false db = .ok c := by
  rw [openCatalog, if_neg (by simpa using hpath)] at h
  split at h
  · rename_i made place hplace
    have heq : place = Path.ofBytes path := by
      rw [catalogPlace] at hplace
      split at hplace
      · rename_i found hlocate
        cases hplace
        exact locate_eq hlocate
      · simp only [Bool.false_eq_true, if_false, Prod.mk.injEq] at hplace
        have hthere := hplace.2
        split at hthere
        · exact (Option.some.inj hthere).symm
        · simp at hthere
      · simp at hplace
    exact heq ▸ openAt_ok h
  · simp at h

theorem path_of_openCatalog (h : s.openCatalog path false = (s', .ok c)) : c.path = path := by
  by_cases hpath : path = []
  · subst hpath
    cases h
    rfl
  · obtain ⟨db, -, hc⟩ := openCatalog_ok hpath h
    exact Catalog.path_of_ofDatabase hc

theorem openCatalog_closeCatalog {readOnly : Bool} {held : Hold} (hheld : Hold.free.acquire? readOnly = some held)
    (hwritten : s.items.lookup place = some (.database db .writer)) (hlocate : s.locate c.path = .ok place)
    (hflushed : c.flushed = some db') (hopen : Catalog.ofDatabase c.path readOnly db' = .ok c') :
    ∃ s', (s.closeCatalog c).1.openCatalog c.path readOnly = (s', .ok c') ∧
      s'.items.lookup place = some (.database db' held) ∧ s'.locate c.path = .ok place := by
  have hplace := locate_eq hlocate
  have hpath : c.path ≠ [] := by
    intro hempty
    simp [locate, hempty] at hlocate
  have hclose : (s.closeCatalog c).1 = s.put place (.database db' .free) := by
    rw [closeCatalog, hflushed]
    simp only [List.isEmpty_iff, hpath, if_false, ← hplace, item?_eq hwritten]
    rfl
  have hfree : (s.put place (.database db' .free)).item? place = some (.database db' .free) :=
    item?_eq (by rw [put, lookup_putItem, if_pos rfl])
  refine ⟨(s.put place (.database db' .free)).put place (.database db' held), ?_, ?_, ?_⟩
  · rw [hclose, openCatalog, if_neg (by simpa using hpath), catalogPlace, locate_put hwritten hlocate]
    simp only [openAt, found?, hfree, Option.bind_some, hheld, Option.map_some, hopen]
  · rw [put, lookup_putItem, if_pos rfl]
  · -- put twice in one place is put once
    have hputItem (items : List (Path × Item)) (i j : Item) :
        putItem place j (putItem place i items) = putItem place j items := by
      induction items with
      | nil => simp [putItem]
      | cons e items ih =>
        obtain ⟨p, k⟩ := e
        by_cases hp : p = place <;> simp [putItem, hp, ih]
    have hput : (s.put place (.database db' .free)).put place (.database db' held) =
        s.put place (.database db' held) := congrArg Storage.mk (hputItem ..)
    rw [hput]
    exact locate_put hwritten hlocate

end Storage

structure CatalogSession where
  storage : Storage
  catalog : Catalog

inductive CatalogCall where
  | add (h : Heap)
  | reopen

def CatalogCall.heap? : CatalogCall → Option Heap
  | .add h => some h
  | .reopen => none

namespace CatalogSession

def reopen (x : CatalogSession) : Except CatalogError CatalogSession :=
  match (x.storage.closeCatalog x.catalog).1.openCatalog x.catalog.path false with
  | (s, .ok c) => .ok ⟨s, c⟩
  | (_, .error e) => .error e

def run (x : CatalogSession) : List CatalogCall → Except CatalogError (CatalogSession × List Bool)
  | [] => .ok (x, [])
  | .add h :: rest => do
      let (added, c) ← x.catalog.insert h
      let (y, answers) ← run ⟨x.storage, c⟩ rest
      return (y, added :: answers)
  | .reopen :: rest => do
      let y ← x.reopen
      run y rest

def offered (calls : List CatalogCall) : List Heap := calls.filterMap CatalogCall.heap?

def Rooted (x : CatalogSession) : Prop :=
  ∃ db place, x.storage.items.lookup place = some (.database db .writer) ∧ x.storage.locate x.catalog.path = .ok place

def Within (db db' : Database) : Prop :=
  ∀ key value, [Catalog.heapMark].isPrefixOf key = true → db.get? key = some value → db'.get? key = some value

theorem Within.refl (db : Database) : Within db db := fun _ _ _ hget => hget

theorem Within.trans {db db' db'' : Database} (h : Within db db') (h' : Within db' db'') : Within db db'' :=
  fun key value hkey hget => h' key value hkey (h key value hkey hget)

structure Keeps (x : CatalogSession) (db : Database) (kept earlier : List Heap) : Prop where
  holds : x.catalog.Holds db kept
  represent : Heap.Represent kept earlier
  encodable : ∀ h ∈ earlier, h.Encodable

variable {x y : CatalogSession} {db : Database} {kept earlier : List Heap} {h : Heap} {calls : List CatalogCall}

theorem Keeps.kept_encodable (hx : x.Keeps db kept earlier) : ∀ k ∈ kept, k.Encodable :=
  fun k hk => hx.encodable k (hx.represent.subset k hk)

theorem Keeps.concat_encodable (hx : x.Keeps db kept earlier) (hh : h.Encodable) : ∀ g ∈ earlier ++ [h], g.Encodable :=
  List.forall_mem_append.mpr ⟨hx.encodable, by simpa using hh⟩

theorem Keeps.insert (hx : x.Keeps db kept earlier) (hh : h.Encodable) (hlt : kept.length + 1 < 0x8000000000000000) :
    ∃ added c db', x.catalog.insert h = .ok (added, c) ∧ c.path = x.catalog.path ∧
      Keeps ⟨x.storage, c⟩ db' (kept ++ if added then [h] else []) (earlier ++ [h]) ∧ Within db db' ∧
        (db.Sorted → db'.Sorted) ∧ (added = true ↔ ∀ g ∈ earlier, ¬ g.Isomorphic h) := by
  have hiff := hx.represent.exists_iff (h := h) fun g hg => (hx.encodable g hg).toWellFormed
  by_cases hknown : ∃ k ∈ kept, k.Isomorphic h
  · refine ⟨false, x.catalog, db, hx.holds.insert_known hx.kept_encodable hh hknown, rfl, ?_, .refl db, id, ?_⟩
    · rw [if_neg Bool.false_ne_true, List.append_nil]
      exact ⟨hx.holds, hx.represent.known hknown, hx.concat_encodable hh⟩
    · obtain ⟨g, hg, hiso⟩ := hiff.mp hknown
      simpa using ⟨g, hg, hiso⟩
  · have hnew : ∀ k ∈ kept, ¬ k.Isomorphic h := by simpa using hknown
    obtain ⟨c, hinsert, hpath, hc⟩ := hx.holds.insert_new hx.kept_encodable hh hnew (by omega)
    refine ⟨true, c, _, hinsert, hpath, ⟨hc, hx.represent.push hnew, hx.concat_encodable hh⟩, ?_,
      fun hs => hs.put _ _, ?_⟩
    · -- the key has a number that no key had before
      intro key value hkey hget
      have hfresh := hx.holds.stores.get?_eq_none (h := h) (Nat.lt_succ_self kept.length) (by omega)
      rw [Database.get?_put, if_neg]
      · exact hget
      · rintro rfl
        rw [hfresh] at hget
        cases hget
    · rw [hiff] at hknown
      simpa using hknown

theorem exists_reopen (hx : x.catalog.Holds db kept) (hr : x.Rooted) (hlt : kept.length < 0x8000000000000000) :
    ∃ y db', x.reopen = .ok y ∧ y.catalog.path = x.catalog.path ∧ y.Rooted ∧ y.catalog.Holds db' kept ∧
      Within db db' ∧ (db.Sorted → db'.Sorted) := by
  obtain ⟨db₀, place, hwritten, hlocate⟩ := hr
  obtain ⟨db', c, hflushed, hopen, hpath, hc, hsame⟩ := hx.reopen (by omega) x.catalog.path
  obtain ⟨s, hs, hwritten', hlocate'⟩ := Storage.openCatalog_closeCatalog rfl hwritten hlocate hflushed hopen
  refine ⟨⟨s, c⟩, db', by rw [CatalogSession.reopen, hs], hpath, ⟨db', place, hwritten', by rwa [hpath]⟩, hc,
    fun key value hkey hget => ?_, hx.sorted_flushed hflushed⟩
  rwa [hsame key hkey]

theorem Keeps.reopen (hx : x.Keeps db kept earlier) (hr : x.Rooted) (hlt : kept.length < 0x8000000000000000) :
    ∃ y db', x.reopen = .ok y ∧ y.catalog.path = x.catalog.path ∧ y.Rooted ∧ y.Keeps db' kept earlier ∧
      Within db db' ∧ (db.Sorted → db'.Sorted) := by
  obtain ⟨y, db', hreopen, hpath, hy, hc, hwithin, hsorted⟩ := exists_reopen hx.holds hr hlt
  exact ⟨y, db', hreopen, hpath, hy, ⟨hc, hx.represent, hx.encodable⟩, hwithin, hsorted⟩

theorem run_append (x : CatalogSession) (before after : List CatalogCall) : x.run (before ++ after) = (do
    let (y, answers) ← x.run before
    let (z, more) ← y.run after
    return (z, answers ++ more)) := by
  induction before generalizing x with
  | nil => cases h : x.run after <;> simp [run, h, bind, Except.bind, pure, Except.pure]
  | cons call before ih =>
    cases call with
    | add h =>
      simp only [List.cons_append, run, ih]
      cases x.catalog.insert h with
      | error e => rfl
      | ok p =>
        simp only [bind, Except.bind]
        cases run ⟨x.storage, p.2⟩ before with
        | error e => rfl
        | ok q =>
          simp only [pure, Except.pure]
          cases run q.1 after <;> rfl
    | reopen =>
      simp only [List.cons_append, run, ih]
      cases x.reopen <;> rfl

def taken (heaps : List Heap) (answers : List Bool) : List Heap := ((heaps.zip answers).filter Prod.snd).map Prod.fst

theorem taken_cons (added : Bool) (answers : List Bool) (heaps : List Heap) :
    taken (h :: heaps) (added :: answers) = (if added then [h] else []) ++ taken heaps answers := by
  cases added <;> rfl

theorem length_taken_le (heaps : List Heap) (answers : List Bool) : (taken heaps answers).length ≤ heaps.length := by
  rw [taken, List.length_map]
  exact (List.length_filter_le _ _).trans (by simp)

theorem Keeps.run_taken (hx : x.Keeps db kept earlier) (hcalls : ∀ h ∈ offered calls, h.Encodable)
    (hrooted : .reopen ∈ calls → x.Rooted) (hlt : kept.length + calls.length < 0x8000000000000000) :
    ∃ y answers db', x.run calls = .ok (y, answers) ∧ y.catalog.path = x.catalog.path ∧
      y.Keeps db' (kept ++ taken (offered calls) answers) (earlier ++ offered calls) ∧ Within db db' ∧
      (db.Sorted → db'.Sorted) ∧ (x.Rooted → y.Rooted) ∧ answers.length = (offered calls).length ∧
      ∀ i h, (offered calls)[i]? = some h →
        (answers[i]? = some true ↔ ∀ g ∈ earlier ++ (offered calls).take i, ¬ g.Isomorphic h) := by
  induction calls generalizing x db kept earlier with
  | nil => exact ⟨x, [], db, rfl, rfl, by simpa [offered, taken] using hx, .refl db, id, id, rfl, by simp [offered]⟩
  | cons call calls ih =>
    rw [List.length_cons] at hlt
    cases call with
    | add h =>
      have hoffered : offered (.add h :: calls) = h :: offered calls := rfl
      rw [hoffered, List.forall_mem_cons] at hcalls
      obtain ⟨added, c, db₁, hinsert, hpath, hx₁, hwithin₁, hsorted₁, hadded⟩ := hx.insert hcalls.1 (by omega)
      have hroot : x.Rooted → Rooted ⟨x.storage, c⟩ := by
        rintro ⟨db₀, place, hwritten, hlocate⟩
        exact ⟨db₀, place, hwritten, by rwa [hpath]⟩
      have hlen : (kept ++ if added then [h] else []).length ≤ kept.length + 1 := by
        cases added <;> simp
      obtain ⟨y, answers, db', hrun, hypath, hy, hwithin, hsorted, hyroot, hcount, htell⟩ :=
        ih hx₁ hcalls.2 (fun hr => hroot (hrooted (List.mem_cons_of_mem _ hr))) (by omega)
      refine ⟨y, added :: answers, db', ?_, hypath.trans hpath, ?_, hwithin₁.trans hwithin,
        fun hs => hsorted (hsorted₁ hs), fun hr => hyroot (hroot hr), congrArg (· + 1) hcount, fun i g hg => ?_⟩
      · rw [CatalogSession.run, hinsert]
        change (CatalogSession.run ⟨x.storage, c⟩ calls >>= _) = _
        rw [hrun]
        rfl
      · rwa [hoffered, List.append_cons, taken_cons, ← List.append_assoc]
      · cases i with
        | zero =>
          cases hg
          simpa using hadded
        | succ i =>
          rw [hoffered, List.take_succ_cons, List.append_cons]
          exact htell i g hg
    | reopen =>
      have hr := hrooted List.mem_cons_self
      obtain ⟨x₁, db₁, hreopen, hpath, hr₁, hx₁, hwithin₁, hsorted₁⟩ := hx.reopen hr (by omega)
      obtain ⟨y, answers, db', hrun, hypath, hy, hwithin, hsorted, hyroot, hcount, htell⟩ :=
        ih hx₁ hcalls (fun _ => hr₁) (by omega)
      refine ⟨y, answers, db', ?_, hypath.trans hpath, hy, hwithin₁.trans hwithin, fun hs => hsorted (hsorted₁ hs),
        fun _ => hyroot hr₁, hcount, htell⟩
      rw [CatalogSession.run, hreopen]
      exact hrun

theorem Keeps.run (hx : x.Keeps db kept earlier) (hcalls : ∀ h ∈ offered calls, h.Encodable)
    (hrooted : .reopen ∈ calls → x.Rooted) (hlt : kept.length + calls.length < 0x8000000000000000) :
    ∃ y answers db' kept', x.run calls = .ok (y, answers) ∧ y.Keeps db' kept' (earlier ++ offered calls) ∧
      kept'.length ≤ kept.length + calls.length ∧ Within db db' ∧ (x.Rooted → y.Rooted) ∧
      answers.length = (offered calls).length ∧
      ∀ i h, (offered calls)[i]? = some h →
        (answers[i]? = some true ↔ ∀ g ∈ earlier ++ (offered calls).take i, ¬ g.Isomorphic h) := by
  obtain ⟨y, answers, db', hrun, -, hy, hwithin, -, hroot, hcount, htell⟩ := hx.run_taken hcalls hrooted hlt
  refine ⟨y, answers, db', _, hrun, hy, ?_, hwithin, hroot, hcount, htell⟩
  rw [List.length_append]
  exact Nat.add_le_add_left ((length_taken_le _ _).trans (List.length_filterMap_le _ _)) _

theorem Keeps.exists_within {before after : List CatalogCall} {answers : List Bool} {db' : Database}
    (hx : x.Keeps db kept earlier) (hcalls : ∀ h ∈ offered (before ++ after), h.Encodable)
    (hrooted : .reopen ∈ before ++ after → x.Rooted) (hlt : kept.length + (before ++ after).length < 0x8000000000000000)
    (hrun : x.run (before ++ after) = .ok (y, answers)) (hdb : y.catalog.database = some db') :
    ∃ z first mid, x.run before = .ok (z, first) ∧ z.catalog.database = some mid ∧ Within mid db' := by
  have hsplit : offered (before ++ after) = offered before ++ offered after := List.filterMap_append
  rw [hsplit, List.forall_mem_append] at hcalls
  rw [List.length_append] at hlt
  obtain ⟨z, first, mid, kept₁, hrun₁, hz, hlen, -, hroot, -, -⟩ :=
    hx.run hcalls.1 (fun hr => hrooted (List.mem_append_left _ hr)) (by omega)
  obtain ⟨w, more, last, kept₂, hrun₂, hw, -, hwithin, -, -, -⟩ :=
    hz.run hcalls.2 (fun hr => hroot (hrooted (List.mem_append_right _ hr))) (by omega)
  have hboth : x.run (before ++ after) = .ok (w, first ++ more) := by
    rw [run_append, hrun₁]
    change (z.run after >>= _) = _
    rw [hrun₂]
    rfl
  rw [hrun, Except.ok.injEq, Prod.mk.injEq] at hboth
  rw [hboth.1, hw.holds.database, Option.some.injEq] at hdb
  exact ⟨z, first, mid, hrun₁, hz.holds.database, hdb ▸ hwithin⟩

theorem keeps_of_openCatalog {s s₀ : Storage} {c₀ : Catalog} {path : Bytes}
    (hopen : s.openCatalog path false = (s₀, .ok c₀)) (hnew : c₀.database = some {}) :
    Keeps ⟨s₀, c₀⟩ {} [] [] ∧ ((∃ place, s₀.locate path = .ok place) → Rooted ⟨s₀, c₀⟩) := by
  by_cases hpath : path = []
  · subst hpath
    cases hopen
    refine ⟨⟨.new [], .nil, by simp⟩, ?_⟩
    rintro ⟨place, hplace⟩
    cases hplace
  · obtain ⟨db, hwritten, hc⟩ := Storage.openCatalog_ok hpath hopen
    have hdb : db = {} ∧ c₀ = { path := path, database := some {} } := by
      rw [Catalog.ofDatabase] at hc
      split at hc
      · cases hc
        cases hnew
        exact ⟨rfl, rfl⟩
      · rename_i value hvalue
        have hsame : c₀.database = some db := by
          simp only at hc
          split at hc
          · cases hc
          · split at hc
            · cases hc
              rfl
            · cases hc
        rw [hnew, Option.some.injEq] at hsame
        subst hsame
        cases hvalue
    obtain ⟨rfl, rfl⟩ := hdb
    refine ⟨⟨.new path, .nil, by simp⟩, ?_⟩
    rintro ⟨place, hplace⟩
    exact ⟨{}, place, Storage.locate_eq hplace ▸ hwritten, hplace⟩

theorem keeps_one_of_each_class {s s₀ : Storage} {c₀ : Catalog} {path : Bytes}
    (hopen : s.openCatalog path false = (s₀, .ok c₀)) (hnew : c₀.database = some {})
    (hcalls : ∀ h ∈ offered calls, h.Encodable) (hplace : .reopen ∈ calls → ∃ place, s₀.locate path = .ok place)
    (hlt : calls.length < 0x8000000000000000) :
    ∃ x answers db, run ⟨s₀, c₀⟩ calls = .ok (x, answers) ∧ x.catalog.database = some db ∧
      answers.length = (offered calls).length ∧
      (∀ i h, (offered calls)[i]? = some h →
        (answers[i]? = some true ↔ ∀ g ∈ (offered calls).take i, ¬ g.Isomorphic h)) ∧
      x.catalog.size = (db.startingWith [Catalog.heapMark]).length ∧
      x.catalog.size = (Heap.classes (offered calls)).ncard ∧
      ((db.startingWith [Catalog.heapMark]).map (fun e => Catalog.numberOfKey e.1)).Perm
        (List.range' 1 (db.startingWith [Catalog.heapMark]).length) ∧
      ∀ before after, calls = before ++ after → ∃ y earlier db', run ⟨s₀, c₀⟩ before = .ok (y, earlier) ∧
        y.catalog.database = some db' ∧ Within db' db := by
  obtain ⟨hstart, hroot⟩ := keeps_of_openCatalog hopen hnew
  have hrooted (hr : .reopen ∈ calls) : Rooted ⟨s₀, c₀⟩ := hroot (hplace hr)
  obtain ⟨x, answers, db, kept, hrun, hx, hlen, -, -, hcount, htell⟩ := hstart.run hcalls hrooted (by simpa using hlt)
  rw [List.length_nil, Nat.zero_add] at hlen
  rw [List.nil_append] at hx
  have hsize := hx.holds.size_eq (by omega)
  have hentries : (db.startingWith [Catalog.heapMark]).length = kept.length := by
    rw [hx.holds.stores.length_eq, Catalog.stored, List.length_mapIdx]
  refine ⟨x, answers, db, hrun, hx.holds.database, hcount, htell, by rw [hsize, hentries], ?_, ?_,
    fun before after hsplit => ?_⟩
  · rw [hsize, hx.represent.ncard_classes fun h hh => (hx.encodable h hh).toWellFormed]
  · rw [hentries]
    exact hx.holds.stores.numbers (by omega)
  · subst hsplit
    exact hstart.exists_within hcalls hrooted (by simpa using hlt) hrun hx.holds.database

theorem keeps_one_of_each_class_loops :
    ({} : Storage).openCatalog "lists" false = (⟨[(["lists"], .database {} .writer)]⟩, .ok { path := "lists" }) ∧
    Heap.loops.Encodable ∧ Heap.turnedLoops.Encodable ∧ Heap.knot.Encodable ∧
    ∃ x answers db, run ⟨⟨[(["lists"], .database {} .writer)]⟩, { path := "lists" }⟩
        [.add .loops, .add .turnedLoops, .reopen, .add .turnedLoops, .add .knot] = .ok (x, answers) ∧
      x.catalog.database = some db ∧ answers[0]? = some true ∧ answers[1]? ≠ some true ∧ answers[2]? ≠ some true ∧
      answers[3]? = some true ∧ x.catalog.size = (db.startingWith [Catalog.heapMark]).length := by
  have hopen : ({} : Storage).openCatalog "lists" false =
      (⟨[(["lists"], .database {} .writer)]⟩, .ok { path := "lists" }) := by decide
  have hloops : Heap.loops.Encodable :=
    ⟨Heap.wellFormed_loops, by decide, by decide, by decide, by decide, by decide, by decide⟩
  have hturned : Heap.turnedLoops.Encodable :=
    ⟨Heap.wellFormed_turnedLoops, by decide, by decide, by decide, by decide, by decide, by decide⟩
  have hiso : Heap.loops.Isomorphic Heap.turnedLoops :=
    (Heap.equals_iff hloops.toSound hturned.toSound).mp (by decide)
  have hknot (h : Heap) (hs : h.Sound) (he : h.equals Heap.knot = false) : ¬ h.Isomorphic Heap.knot := by
    rw [← Heap.equals_iff hs Heap.encodable_knot.toSound, he]
    exact Bool.false_ne_true
  have hoffered : offered [.add .loops, .add .turnedLoops, .reopen, .add .turnedLoops, .add .knot] =
      [.loops, .turnedLoops, .turnedLoops, .knot] := rfl
  have hcalls : ∀ h ∈ offered [.add .loops, .add .turnedLoops, .reopen, .add .turnedLoops, .add .knot],
      h.Encodable := by
    rw [hoffered]
    simp [hloops, hturned, Heap.encodable_knot]
  obtain ⟨x, answers, db, hrun, hdb, -, htell, hsize, -⟩ :=
    keeps_one_of_each_class hopen rfl hcalls (fun _ => ⟨_, rfl⟩) (by decide)
  rw [hoffered] at htell
  refine ⟨hopen, hloops, hturned, Heap.encodable_knot, x, answers, db, hrun, hdb, ?_, ?_, ?_, ?_, hsize⟩
  · exact (htell 0 .loops rfl).mpr (by simp)
  · exact fun h => (htell 1 .turnedLoops rfl).mp h .loops (by simp) hiso
  · exact fun h => (htell 2 .turnedLoops rfl).mp h .loops (by simp) hiso
  · refine (htell 3 .knot rfl).mpr ?_
    simp [hknot .loops hloops.toSound (by decide), hknot .turnedLoops hturned.toSound (by decide)]

end CatalogSession

end HeapAbstraction
