import HeapAbstraction.Catalog.Basic
import HeapAbstraction.Proofs.Database
import HeapAbstraction.Proofs.RoundTrip
import HeapAbstraction.Proofs.Weight

namespace HeapAbstraction

namespace Heap

variable {a b h : Heap} {kept offered : List Heap}

theorem Isomorphic.countOf_eq (hab : a.Isomorphic b) (ha : a.Idle) (hb : b.Idle) (k : Kind) :
    a.countOf k = b.countOf k := by
  obtain ⟨φ, hφ⟩ := hab
  rw [← ncard_slotsOf, ← ncard_slotsOf]
  refine Set.ncard_congr (fun v _ => φ v) (fun v hv => ?_) (fun v w hv hw => ?_) fun t ht => ?_
  · obtain ⟨lab, hl, hk⟩ := hv
    obtain ⟨e, he, hr, rfl⟩ := labelAt_eq_some.mp hl
    obtain ⟨e', he', hlab, -⟩ := exists_element_image hφ he
    exact ⟨e.label, labelAt_eq_some.mpr ⟨e', he', hb e' (List.mem_of_getElem? he'), hlab⟩, hk⟩
  · obtain ⟨lab, hl, hk⟩ := hv
    obtain ⟨lab', hl', hk'⟩ := hw
    exact hφ.inj v (lt_graph_size hl) w (lt_graph_size hl')
  · obtain ⟨lab, hl, hk⟩ := ht
    obtain ⟨e', he', -, rfl⟩ := labelAt_eq_some.mp hl
    obtain ⟨v, hv, rfl⟩ := hφ.onto t (lt_graph_size hl)
    rw [graph_size] at hv
    obtain ⟨e, he, hlab, -⟩ := exists_element_image hφ (List.getElem?_eq_getElem hv)
    obtain rfl : e' = e := Option.some.inj (he'.symm.trans he)
    have hlv := labelAt_eq_some.mpr ⟨_, List.getElem?_eq_getElem hv, ha _ (List.getElem_mem hv), hlab.symm⟩
    exact ⟨v, ⟨e'.label, hlv, hk⟩, rfl⟩

def isomorphism : Setoid {h : Heap // h.WellFormed} where
  r a b := a.1.Isomorphic b.1
  iseqv := ⟨fun a => .refl a.1, fun {_ b} hab => hab.symm b.2.toSound, fun {a _ _} hab hbc => hab.trans a.2.toSound hbc⟩

def classes (hs : List Heap) : Set (Quotient isomorphism) := {q | ∃ h, h.1 ∈ hs ∧ Quotient.mk isomorphism h = q}

structure Represent (kept offered : List Heap) : Prop where
  subset : ∀ k ∈ kept, k ∈ offered
  distinct : kept.Pairwise (fun a b => ¬ a.Isomorphic b)
  covers : ∀ h ∈ offered, ∃ k ∈ kept, k.Isomorphic h

namespace Represent

theorem nil : Represent [] [] := ⟨by simp, .nil, by simp⟩

theorem known (hr : Represent kept offered) (hh : ∃ k ∈ kept, k.Isomorphic h) : Represent kept (offered ++ [h]) where
  subset k hk := List.mem_append_left _ (hr.subset k hk)
  distinct := hr.distinct
  covers g hg := by
    rcases List.mem_append.mp hg with hg | hg
    · exact hr.covers g hg
    · rwa [List.mem_singleton.mp hg]

theorem push (hr : Represent kept offered) (hh : ∀ k ∈ kept, ¬ k.Isomorphic h) :
    Represent (kept ++ [h]) (offered ++ [h]) where
  subset k hk := by
    rcases List.mem_append.mp hk with hk | hk
    · exact List.mem_append_left _ (hr.subset k hk)
    · exact List.mem_append_right _ hk
  distinct := List.pairwise_append.mpr ⟨hr.distinct, List.pairwise_singleton _ _, by simpa using hh⟩
  covers g hg := by
    rcases List.mem_append.mp hg with hg | hg
    · obtain ⟨k, hk, hiso⟩ := hr.covers g hg
      exact ⟨k, List.mem_append_left _ hk, hiso⟩
    · exact ⟨h, by simp, List.mem_singleton.mp hg ▸ .refl h⟩

theorem exists_iff (hr : Represent kept offered) (hw : ∀ g ∈ offered, g.WellFormed) :
    (∃ k ∈ kept, k.Isomorphic h) ↔ ∃ g ∈ offered, g.Isomorphic h := by
  constructor
  · rintro ⟨k, hk, hiso⟩
    exact ⟨k, hr.subset k hk, hiso⟩
  · rintro ⟨g, hg, hiso⟩
    obtain ⟨k, hk, hkg⟩ := hr.covers g hg
    exact ⟨k, hk, hkg.trans (hw k (hr.subset k hk)).toSound hiso⟩

theorem ncard_classes (hr : Represent kept offered) (hw : ∀ g ∈ offered, g.WellFormed) :
    (classes offered).ncard = kept.length := by
  have hkept (k : Heap) (hk : k ∈ kept) : k.WellFormed := hw k (hr.subset k hk)
  have hnodup : (kept.pmap (fun k hk => Quotient.mk isomorphism ⟨k, hk⟩) hkept).Nodup := by
    refine hr.distinct.pmap _ fun a ha b hb hne heq => hne ?_
    exact Quotient.exact heq
  have hclasses : classes offered = {q | q ∈ kept.pmap (fun k hk => Quotient.mk isomorphism ⟨k, hk⟩) hkept} := by
    ext q
    simp only [classes, Set.mem_ofPred_eq, List.mem_pmap]
    constructor
    · rintro ⟨⟨h, hh⟩, hmem, rfl⟩
      obtain ⟨k, hk, hiso⟩ := hr.covers h hmem
      exact ⟨k, hk, Quotient.sound hiso⟩
    · rintro ⟨k, hk, rfl⟩
      exact ⟨⟨k, hkept k hk⟩, hr.subset k hk, rfl⟩
  rw [hclasses, ncard_mem_list hnodup, List.length_pmap]

end Represent

end Heap

namespace Catalog

variable {c : Catalog} {db : Database} {h k : Heap} {kept : List Heap} {n : Nat}

def numberOfKey (key : Bytes) : Nat := Bytes.toNatBE (key.drop 11)

theorem length_classKey (h : Heap) : (classKey h).length = 11 := by
  simp [classKey, sizeKey, Bytes.length_bigEndian]

theorem numberOfKey_heapKey (hn : n < 0x10000000000000000) : numberOfKey (heapKey h n) = n := by
  rw [numberOfKey, heapKey, List.drop_left' (length_classKey h)]
  exact Bytes.toNatBE_bigEndian hn

theorem heapMark_append (h : Heap) : [heapMark] <+: classKey h := by
  simp [classKey, sizeKey]

theorem heapMark_isPrefixOf (h : Heap) (n : Nat) : [heapMark].isPrefixOf (heapKey h n) = true := by
  rw [List.isPrefixOf_iff_prefix]
  exact (heapMark_append h).trans (List.prefix_append _ _)

theorem classKey_isPrefixOf : (classKey h).isPrefixOf (heapKey k n) = true ↔ classKey k = classKey h := by
  rw [List.isPrefixOf_iff_prefix, heapKey]
  constructor
  · rintro ⟨t, ht⟩
    exact (List.append_inj ht (by rw [length_classKey, length_classKey])).1.symm
  · rintro heq
    exact heq ▸ List.prefix_append _ _

theorem classKey_eq_of_isomorphic (hk : k.Encodable) (hh : h.Encodable) (hiso : k.Isomorphic h) :
    classKey k = classKey h := by
  rw [classKey, classKey, hiso.countOf_eq hk.idle hh.idle, Heap.fingerprint, Heap.fingerprint,
    hiso.fingerprintWith_eq Hash.xxh64 hk.toSound hh.toSound]

def stored (kept : List Heap) : List (Bytes × Bytes) := kept.mapIdx (fun i k => (heapKey k (i + 1), k.encode))

theorem mem_stored {e : Bytes × Bytes} :
    e ∈ stored kept ↔ ∃ i k, kept[i]? = some k ∧ e = (heapKey k (i + 1), k.encode) := by
  simp only [stored, List.mem_iff_getElem?, List.getElem?_mapIdx, Option.map_eq_some_iff]
  exact exists_congr fun i => exists_congr fun k => and_congr_right fun _ => eq_comm

theorem stored_concat (kept : List Heap) (h : Heap) :
    stored (kept ++ [h]) = stored kept ++ [(heapKey h (kept.length + 1), h.encode)] := by
  rw [stored, List.mapIdx_concat]
  rfl

def Stores (db : Database) (kept : List Heap) : Prop := (db.startingWith [heapMark]).Perm (stored kept)

namespace Stores

theorem get?_eq_none (hdb : Stores db kept) (hn : kept.length < n) (hlt : n < 0x10000000000000000) :
    db.get? (heapKey h n) = none := by
  rw [Database.get?, List.lookup_eq_none_iff]
  intro e he
  rw [bne_iff_ne]
  intro hkey
  have hmem : e ∈ db.startingWith [heapMark] := List.mem_filter.mpr ⟨he, hkey ▸ heapMark_isPrefixOf h n⟩
  obtain ⟨i, k, hk, rfl⟩ := mem_stored.mp (hdb.mem_iff.mp hmem)
  have hi := (List.getElem?_eq_some_iff.mp hk).1
  have hnumber := congrArg numberOfKey hkey
  rw [numberOfKey_heapKey hlt, numberOfKey_heapKey (by omega)] at hnumber
  omega

theorem put (hdb : Stores db kept) (hlt : kept.length + 1 < 0x10000000000000000) :
    Stores (db.put (heapKey h (kept.length + 1)) h.encode) (kept ++ [h]) := by
  rw [Stores, stored_concat]
  refine (Database.startingWith_put_perm (heapMark_isPrefixOf h _) (hdb.get?_eq_none (Nat.lt_succ_self _) hlt)).trans ?_
  exact (hdb.cons _).trans (List.perm_append_singleton _ _).symm

theorem putHeader (hdb : Stores db kept) (value : Bytes) : Stores (db.put headerKey value) kept := by
  rwa [Stores, Database.startingWith_put rfl]

theorem mem_class (hdb : Stores db kept) {e : Bytes × Bytes} : e ∈ db.startingWith (classKey h) ↔
    ∃ i k, kept[i]? = some k ∧ e = (heapKey k (i + 1), k.encode) ∧ classKey k = classKey h := by
  have hmark (key : Bytes) (hkey : (classKey h).isPrefixOf key = true) : [heapMark].isPrefixOf key = true := by
    rw [List.isPrefixOf_iff_prefix] at hkey ⊢
    exact (heapMark_append h).trans hkey
  have hfilter : e ∈ db.startingWith (classKey h) ↔
      e ∈ db.startingWith [heapMark] ∧ (classKey h).isPrefixOf e.1 = true := by
    simp only [Database.startingWith, List.mem_filter]
    exact ⟨fun he => ⟨⟨he.1, hmark _ he.2⟩, he.2⟩, fun he => ⟨he.1.1, he.2⟩⟩
  rw [hfilter, hdb.mem_iff, mem_stored]
  constructor
  · rintro ⟨⟨i, k, hk, rfl⟩, hkey⟩
    exact ⟨i, k, hk, rfl, classKey_isPrefixOf.mp hkey⟩
  · rintro ⟨i, k, hk, rfl, hkey⟩
    exact ⟨⟨i, k, hk, rfl⟩, classKey_isPrefixOf.mpr hkey⟩

theorem hasClassOf_iff (hdb : Stores db kept) (hkept : ∀ k ∈ kept, k.Encodable) (hh : h.Encodable) :
    hasClassOf db h = true ↔ ∃ k ∈ kept, k.Isomorphic h := by
  -- a stored heap is decoded as one that is isomorphic to it
  have hentry (k : Heap) (hk : k.Encodable) : ∃ k', heapOf? k.encode = some k' ∧ (k'.equals h = true ↔ k.Isomorphic h) := by
    obtain ⟨k', hd, hsame⟩ := hk.exists_decode []
    rw [List.append_nil] at hd
    have hk' := (Heap.wellFormed_of_decode hd).1.toSound
    have hiso := hsame.isomorphic hk.toWellFormed hk.idle
    refine ⟨k', by rw [heapOf?, hd]; rfl, (Heap.equals_iff hk' hh.toSound).trans ⟨hiso.trans hk.toSound, ?_⟩⟩
    exact (hiso.symm hk').trans hk'
  rw [hasClassOf, List.any_eq_true]
  constructor
  · rintro ⟨e, he, heq⟩
    obtain ⟨i, k, hk, rfl, -⟩ := hdb.mem_class.mp he
    have hmem := List.mem_of_getElem? hk
    obtain ⟨k', hd, hiff⟩ := hentry k (hkept k hmem)
    simp only [hd] at heq
    exact ⟨k, hmem, hiff.mp heq⟩
  · rintro ⟨k, hmem, hiso⟩
    obtain ⟨i, hk⟩ := List.mem_iff_getElem?.mp hmem
    obtain ⟨k', hd, hiff⟩ := hentry k (hkept k hmem)
    refine ⟨_, hdb.mem_class.mpr ⟨i, k, hk, rfl, classKey_eq_of_isomorphic (hkept k hmem) hh hiso⟩, ?_⟩
    simp only [hd]
    exact hiff.mpr hiso

theorem numbers (hdb : Stores db kept) (hlt : kept.length < 0x10000000000000000) :
    ((db.startingWith [heapMark]).map (fun e => numberOfKey e.1)).Perm (List.range' 1 kept.length) := by
  refine (hdb.map _).trans (.of_eq (List.ext_getElem (by simp [stored]) fun i hi _ => ?_))
  have hi' : i < kept.length := by simpa [stored] using hi
  rw [List.getElem_map, List.getElem_range']
  simp only [stored, List.getElem_mapIdx]
  rw [numberOfKey_heapKey (by omega)]
  omega

end Stores

theorem path_of_ofDatabase {path : Bytes} {readOnly : Bool} (h : ofDatabase path readOnly db = .ok c) : c.path = path := by
  rw [ofDatabase] at h
  split at h
  · cases h
    rfl
  · simp only at h
    split at h
    · cases h
    · split at h
      · cases h
        rfl
      · cases h

structure Holds (c : Catalog) (db : Database) (kept : List Heap) : Prop where
  database : c.database = some db
  writable : c.readOnly = false
  header : c.header = { Header.initial with count := kept.length }
  stores : Stores db kept
  saved : c.dirty = false → db.get? headerKey = some c.header.write

namespace Holds

theorem new (path : Bytes) : Holds { path := path, database := some {} } {} [] where
  database := rfl
  writable := rfl
  header := rfl
  stores := .refl _
  saved hd := by simp at hd

theorem size_eq (hc : c.Holds db kept) (hlt : kept.length < 0x8000000000000000) : c.size = kept.length := by
  rw [size, hc.header]
  exact Int64.toInt_ofNat_of_lt (by simpa using hlt)

theorem insert_present (hc : c.Holds db kept) (hclass : hasClassOf db h = true) : c.insert h = .ok (false, c) := by
  simp [insert, hc.writable, hc.database, hclass]

theorem insert_absent (hc : c.Holds db kept) (hclass : hasClassOf db h = false)
    (hlt : kept.length + 1 < 0x10000000000000000) :
    ∃ c', c.insert h = .ok (true, c') ∧ c'.path = c.path ∧
      c'.Holds (db.put (heapKey h (kept.length + 1)) h.encode) (kept ++ [h]) := by
  have hnumber : (c.header.count + 1) % 0x10000000000000000 = kept.length + 1 := by
    rw [hc.header]
    exact Nat.mod_eq_of_lt hlt
  refine ⟨{ c with
    header := { c.header with count := kept.length + 1 }
    dirty := true
    database := some (db.put (heapKey h (kept.length + 1)) h.encode) }, ?_, rfl, ?_⟩
  · simp only [insert, hc.writable, hc.database, hclass, hnumber, Bool.false_eq_true, if_false]
  · exact ⟨rfl, hc.writable, by simp [hc.header], hc.stores.put hlt, by simp⟩

theorem insert_known (hc : c.Holds db kept) (hkept : ∀ k ∈ kept, k.Encodable) (hh : h.Encodable)
    (hknown : ∃ k ∈ kept, k.Isomorphic h) : c.insert h = .ok (false, c) :=
  hc.insert_present ((hc.stores.hasClassOf_iff hkept hh).mpr hknown)

theorem insert_new (hc : c.Holds db kept) (hkept : ∀ k ∈ kept, k.Encodable) (hh : h.Encodable)
    (hnew : ∀ k ∈ kept, ¬ k.Isomorphic h) (hlt : kept.length + 1 < 0x10000000000000000) :
    ∃ c', c.insert h = .ok (true, c') ∧ c'.path = c.path ∧
      c'.Holds (db.put (heapKey h (kept.length + 1)) h.encode) (kept ++ [h]) := by
  refine hc.insert_absent ?_ hlt
  rw [← Bool.not_eq_true, hc.stores.hasClassOf_iff hkept hh]
  rintro ⟨k, hk, hiso⟩
  exact hnew k hk hiso

theorem sorted_flushed (hc : c.Holds db kept) {db' : Database} (hf : c.flushed = some db') (hs : db.Sorted) :
    db'.Sorted := by
  rw [flushed, hc.database] at hf
  split at hf
  · cases hf
    exact hs.put _ _
  · cases hf
    exact hs

theorem exists_flushed (hc : c.Holds db kept) (hlt : kept.length < 0x10000000000000000) :
    ∃ db', c.flushed = some db' ∧ db'.get? headerKey = some c.header.write ∧ Stores db' kept ∧
      (∀ key, [heapMark].isPrefixOf key = true → db'.get? key = db.get? key) ∧
        ∀ path readOnly, ofDatabase path readOnly db' =
          .ok { path := path, readOnly := readOnly, header := c.header, dirty := false, database := some db' } := by
  obtain ⟨db', hflushed, hheader, hstores, hsame⟩ : ∃ db', c.flushed = some db' ∧
      db'.get? headerKey = some c.header.write ∧ Stores db' kept ∧
        ∀ key, [heapMark].isPrefixOf key = true → db'.get? key = db.get? key := by
    cases hd : c.dirty with
    | false => exact ⟨db, by simp [flushed, hd, hc.database], hc.saved hd, hc.stores, fun _ _ => rfl⟩
    | true =>
      refine ⟨db.put headerKey c.header.write, by simp [flushed, hd, hc.writable, hc.database],
        by simp [Database.get?_put], hc.stores.putHeader _, fun key hkey => ?_⟩
      have hne : key ≠ headerKey := by
        rintro rfl
        cases hkey
      rw [Database.get?_put, if_neg hne]
  have hread : Header.read c.header.write = (c.header, true) := by
    rw [hc.header]
    exact Header.read_write (by simp [Header.initial]) (by simp [Header.initial]) hlt
  have hcompatible : c.header.isCompatible = true := by
    rw [hc.header]
    rfl
  refine ⟨db', hflushed, hheader, hstores, hsame, fun path readOnly => ?_⟩
  simp only [ofDatabase, hheader, hread, hcompatible, Bool.not_true, Bool.false_eq_true, if_false, if_true]

theorem reopen (hc : c.Holds db kept) (hlt : kept.length < 0x10000000000000000) (path : Bytes) :
    ∃ db' c', c.flushed = some db' ∧ ofDatabase path false db' = .ok c' ∧ c'.path = path ∧ c'.Holds db' kept ∧
      ∀ key, [heapMark].isPrefixOf key = true → db'.get? key = db.get? key := by
  obtain ⟨db', hflushed, hheader, hstores, hsame, hopen⟩ := hc.exists_flushed hlt
  exact ⟨db', _, hflushed, hopen path false, rfl, ⟨rfl, rfl, hc.header, hstores, fun _ => hheader⟩, hsame⟩

end Holds

end Catalog

end HeapAbstraction
