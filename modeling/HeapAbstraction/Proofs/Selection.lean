import HeapAbstraction.Proofs.CatalogSessions

namespace HeapAbstraction

namespace Catalog

variable {h k : Heap} {m n i j : Nat} {key r r' : Bytes}

theorem sizeKey_append_lt :
    sizeKey m ++ r < sizeKey n ++ r' ↔ m % 65536 < n % 65536 ∨ m % 65536 = n % 65536 ∧ r < r' := by
  have hkey (n : Nat) (r : Bytes) : sizeKey n ++ r = heapMark :: UInt8.ofNat (n / 256) :: UInt8.ofNat n :: r := rfl
  simp only [hkey, List.cons_lt_cons_iff, UInt8.lt_iff_toNat_lt, ← UInt8.toNat_inj, UInt8.toNat_ofNat', Nat.lt_irrefl,
    true_and, false_or]
  by_cases hr : r < r' <;> simp only [hr, and_true, and_false, or_false] <;> omega

theorem heapKey_eq (h : Heap) (i : Nat) :
    heapKey h i = sizeKey (h.countOf .node) ++ (Bytes.bigEndian 8 h.fingerprint.toNat ++ Bytes.bigEndian 8 i) :=
  List.append_assoc ..

theorem heapKey_lt_sizeKey : heapKey h i < sizeKey m ↔ h.countOf .node % 65536 < m % 65536 := by
  rw [heapKey_eq, ← List.append_nil (sizeKey m), sizeKey_append_lt]
  simp

theorem nodesOfKey_heapKey (h : Heap) (i : Nat) : nodesOfKey (heapKey h i) = h.countOf .node % 65536 := by
  have htake : ((heapKey h i).drop 1 ++ [0, 0]).take 2 =
      [UInt8.ofNat (h.countOf .node / 256), UInt8.ofNat (h.countOf .node)] := by
    rw [heapKey_eq]
    rfl
  rw [nodesOfKey, htake]
  simp only [Bytes.toNatBE, List.foldl_cons, List.foldl_nil, UInt8.toNat_ofNat']
  omega

theorem nodesOfKey_le_of_lt (hlt : heapKey h i < heapKey k j) :
    nodesOfKey (heapKey h i) ≤ nodesOfKey (heapKey k j) := by
  rw [heapKey_eq, heapKey_eq, sizeKey_append_lt] at hlt
  rw [nodesOfKey_heapKey, nodesOfKey_heapKey]
  omega

theorem head?_of_between (hge : ¬ key < sizeKey m) (hlt : key < heapKey h i) : key.head? = some heapMark := by
  cases key with
  | nil => exact absurd (List.nil_lt_cons _ _) hge
  | cons b key =>
    have hge : ¬ (b < heapMark ∨ b = heapMark ∧ _) := fun hb => hge (List.cons_lt_cons_iff.mpr hb)
    have hlt : b < heapMark ∨ b = heapMark ∧ _ := List.cons_lt_cons_iff.mp hlt
    rw [not_or] at hge
    exact congrArg some (hlt.resolve_left hge.1).1

def InRange (min max : Int) (h : Heap) : Prop := min ≤ h.countOf .node ∧ (max ≤ 0 ∨ h.countOf .node ≤ max)

instance (min max : Int) (h : Heap) : Decidable (InRange min max h) := inferInstanceAs (Decidable (_ ∧ _))

def spans (min max : Int) (key : Bytes) : Bool :=
  !(Bytes.order key (sizeKey (min % 65536).toNat) == .lt) && !(0 < max && max < nodesOfKey key)

def InKeyRange (min max : Int) (h : Heap) : Prop :=
  min % 65536 ≤ (h.countOf .node % 65536 : Nat) ∧ (max ≤ 0 ∨ (h.countOf .node % 65536 : Nat) ≤ max)

instance (min max : Int) (h : Heap) : Decidable (InKeyRange min max h) := inferInstanceAs (Decidable (_ ∧ _))

theorem spans_heapKey {min max : Int} : spans min max (heapKey h i) = true ↔ InKeyRange min max h := by
  have hfrom : Bytes.order (heapKey h i) (sizeKey (min % 65536).toNat) = .lt ↔
      (h.countOf .node % 65536 : Nat) < min % 65536 := by
    rw [Bytes.order_lt_iff, heapKey_lt_sizeKey]
    omega
  rw [spans, nodesOfKey_heapKey, InKeyRange, Bool.and_eq_true, Bool.not_eq_true', beq_eq_false_iff_ne, Ne, hfrom]
  simp only [Bool.not_eq_true', Bool.and_eq_false_iff, decide_eq_false_iff_not]
  omega

theorem inKeyRange_iff {min max : Int} (hmin : 0 ≤ min) (hlt : min < 65536) (hh : h.countOf .node < 65536) :
    InKeyRange min max h ↔ InRange min max h := by
  rw [InKeyRange, InRange, Nat.mod_eq_of_lt hh, Int.emod_eq_of_lt hmin hlt]

structure Searchable (db : Database) (kept : List Heap) : Prop where
  sorted : db.Sorted
  stores : Stores db kept
  encodable : ∀ k ∈ kept, k.Encodable
  small : ∀ k ∈ kept, k.countOf .node < 65536

variable {c : Catalog} {db : Database} {kept : List Heap} {min max : Int}

theorem isPrefixOf_heapMark (key : Bytes) : [heapMark].isPrefixOf key = (key.head? == some heapMark) := by
  cases key with
  | nil => rfl
  | cons b key =>
    rw [List.isPrefixOf_cons_cons, List.isPrefixOf_nil_left, Bool.and_true, List.head?_cons, Option.some_beq_some,
      Bool.beq_comm]

def EntryOf (e : Bytes × Bytes) (k : Heap) : Prop := ∃ i, e = (heapKey k i, k.encode)

namespace Stores

theorem exists_heapKey (hdb : Stores db kept) {e : Bytes × Bytes} (he : e ∈ db.entries)
    (hmark : e.1.head? = some heapMark) : ∃ i, ∃ k ∈ kept, e.1 = heapKey k i := by
  have hmem : e ∈ db.startingWith [heapMark] :=
    List.mem_filter.mpr ⟨he, by rw [isPrefixOf_heapMark, hmark, beq_self_eq_true]⟩
  obtain ⟨i, k, hk, rfl⟩ := mem_stored.mp (hdb.mem_iff.mp hmem)
  exact ⟨i + 1, k, List.mem_of_getElem? hk, rfl⟩

theorem nodesOfKey_le (hdb : Stores db kept) {e f : Bytes × Bytes} (he : e ∈ db.entries) (hf : f ∈ db.entries)
    (hem : e.1.head? = some heapMark) (hfm : f.1.head? = some heapMark) (hlt : e.1 < f.1) :
    nodesOfKey e.1 ≤ nodesOfKey f.1 := by
  obtain ⟨i, h, hh, hei⟩ := hdb.exists_heapKey he hem
  obtain ⟨j, k, hk, hfj⟩ := hdb.exists_heapKey hf hfm
  rw [hei, hfj] at hlt
  rw [hei, hfj]
  exact nodesOfKey_le_of_lt hlt

theorem select_eq (hdb : Stores db kept) (hs : db.Sorted) (hc : c.database = some db) (min max : Int) :
    c.select min max =
      .ok (((db.startingWith [heapMark]).filter (fun e => spans min max e.1)).filterMap (fun e => heapOf? e.2)) := by
  have hfrom := Database.fromKey_eq hs (sizeKey (min % 65536).toNat)
  have hclosed : (db.fromKey (sizeKey (min % 65536).toNat)).Pairwise (fun e f =>
      (f.1.head? == some heapMark && !(0 < max && max < nodesOfKey f.1)) = true →
        (e.1.head? == some heapMark && !(0 < max && max < nodesOfKey e.1)) = true) := by
    rw [hfrom]
    refine ((List.pairwise_map.mp hs).filter _).imp_of_mem fun {e f} he hf hlt hwanted => ?_
    obtain ⟨he, hstart⟩ := List.mem_filter.mp he
    obtain ⟨hf, -⟩ := List.mem_filter.mp hf
    rw [Bool.not_eq_true', beq_eq_false_iff_ne, Ne, Bytes.order_lt_iff] at hstart
    simp only [Bool.and_eq_true, beq_iff_eq, Bool.not_eq_true', Bool.and_eq_false_iff, decide_eq_false_iff_not]
      at hwanted ⊢
    obtain ⟨j, k, -, hfj⟩ := hdb.exists_heapKey hf hwanted.1
    have hmark := head?_of_between hstart (hfj ▸ hlt)
    have hle := hdb.nodesOfKey_le he hf hmark hwanted.1 hlt
    exact ⟨hmark, by omega⟩
  rw [select, hc]
  simp only [takeWhile_eq_filter hclosed]
  rw [hfrom, Database.startingWith, List.filter_filter, List.filter_filter]
  congr 3
  funext e
  rw [isPrefixOf_heapMark, spans]
  ac_rfl

theorem exists_met (hdb : Stores db kept) (min max : Int) :
    ∃ met, met.Perm (kept.filter (InKeyRange min max)) ∧
      ((db.startingWith [heapMark]).filter (fun e => spans min max e.1)).Forall₂ EntryOf met := by
  have hall : (stored kept).Forall₂ EntryOf kept :=
    List.forall₂_iff_get.mpr ⟨by simp [stored], fun i _ _ => ⟨i + 1, by simp [stored]⟩⟩
  have hrange (e : Bytes × Bytes) (k : Heap) (hek : EntryOf e k) :
      spans min max e.1 = true ↔ decide (InKeyRange min max k) = true := by
    obtain ⟨i, rfl⟩ := hek
    rw [decide_eq_true_iff]
    exact spans_heapKey
  obtain ⟨met, hmet, hperm⟩ :=
    List.perm_comp_forall₂ (hdb.filter _) (List.rel_filter (fun {e k} => hrange e k) hall)
  exact ⟨met, hperm, hmet⟩

theorem pairwise_nodesOfKey (hdb : Stores db kept) (hs : db.Sorted) (p : Bytes × Bytes → Bool) :
    ((db.startingWith [heapMark]).filter p).Pairwise (fun e f => nodesOfKey e.1 ≤ nodesOfKey f.1) := by
  have hmark {e : Bytes × Bytes} (he : e ∈ db.startingWith [heapMark]) :
      e ∈ db.entries ∧ e.1.head? = some heapMark := by
    obtain ⟨he, hstart⟩ := List.mem_filter.mp he
    rw [isPrefixOf_heapMark, beq_iff_eq] at hstart
    exact ⟨he, hstart⟩
  refine List.Pairwise.filter _ (((List.pairwise_map.mp hs).filter _).imp_of_mem fun {e f} he hf hlt => ?_)
  exact hdb.nodesOfKey_le (hmark he).1 (hmark hf).1 (hmark he).2 (hmark hf).2 hlt

end Stores

def IsEntry (e : Bytes × Bytes) (k : Heap) : Prop :=
  (∃ i, e = (heapKey k i, k.encode)) ∧ k.Encodable ∧ k.countOf .node < 65536

theorem IsEntry.exists_heapOf? {e : Bytes × Bytes} (hek : IsEntry e k) :
    ∃ k', heapOf? e.2 = some k' ∧ k.SameAnswers k' := by
  obtain ⟨⟨i, rfl⟩, hk, -⟩ := hek
  obtain ⟨k', hd, hsame⟩ := hk.exists_decode []
  rw [List.append_nil] at hd
  exact ⟨k', by rw [heapOf?, hd]; rfl, (hsame.moved hk.idle).sameAnswers hk.toWellFormed⟩

theorem IsEntry.nodesOfKey_eq {e : Bytes × Bytes} (hek : IsEntry e k) : nodesOfKey e.1 = k.countOf .node := by
  obtain ⟨⟨i, rfl⟩, -, hk⟩ := hek
  rw [nodesOfKey_heapKey, Nat.mod_eq_of_lt hk]

theorem hits_of_forall₂ {entries : List (Bytes × Bytes)} {found : List Heap} (hfound : entries.Forall₂ IsEntry found) :
    found.Forall₂ Heap.SameAnswers (entries.filterMap (fun e => heapOf? e.2)) ∧
      (entries.filterMap (fun e => heapOf? e.2)).map (·.countOf .node) = entries.map (fun e => nodesOfKey e.1) := by
  induction hfound with
  | nil => exact ⟨.nil, rfl⟩
  | cons hek _ ih =>
    obtain ⟨k', hread, hsame⟩ := hek.exists_heapOf?
    simp only [List.filterMap_cons, hread, List.map_cons, ih.2, hsame.countOf, hek.nodesOfKey_eq, and_true]
    exact .cons hsame ih.1

theorem Searchable.exists_found (hdb : Searchable db kept) (hmin : 0 ≤ min) (hlt : min < 65536) (max : Int) :
    ∃ found, found.Perm (kept.filter (InRange min max)) ∧
      ((db.startingWith [heapMark]).filter (fun e => spans min max e.1)).Forall₂ IsEntry found := by
  obtain ⟨found, hperm, hfound⟩ := hdb.stores.exists_met min max
  have hrange : kept.filter (InKeyRange min max) = kept.filter (InRange min max) :=
    List.filter_congr fun k hk => decide_eq_decide.mpr (inKeyRange_iff hmin hlt (hdb.small k hk))
  have hkept : ∀ k ∈ found, k ∈ kept := fun k hk => (List.mem_filter.mp (hperm.subset hk)).1
  refine ⟨found, hrange ▸ hperm, List.forall₂_iff_get.mpr ⟨hfound.length_eq, fun i hi hi' => ?_⟩⟩
  have hk := hkept _ (List.get_mem found ⟨i, hi'⟩)
  exact ⟨hfound.get hi hi', hdb.encodable _ hk, hdb.small _ hk⟩

-- visitors are shown the given heaps up to the first that they want no more after, each with the public state with
-- which it was added, and smaller ones first
def Enumerates (c : Catalog) (min max : Int) (heaps : List Heap) : Prop :=
  ∃ found hits : List Heap, found.Perm heaps ∧ found.Forall₂ Heap.SameAnswers hits ∧
    hits.Pairwise (fun h k => h.countOf .node ≤ k.countOf .node) ∧
      ∀ {σ : Type} (v : Visitor σ Heap) (memory : σ), ∃ memory', c.forEachHit min max v memory =
        .ok (hits.take (((v.answers memory hits).takeWhile id).length + 1), memory')

theorem Searchable.enumerates (hdb : Searchable db kept) (hc : c.database = some db) (hmin : 0 ≤ min) (hlt : min < 65536)
    (max : Int) : c.Enumerates min max (kept.filter (InRange min max)) := by
  obtain ⟨found, hperm, hfound⟩ := hdb.exists_found hmin hlt max
  obtain ⟨hsame, hcounts⟩ := hits_of_forall₂ hfound
  refine ⟨found, _, hperm, hsame, ?_, fun v memory => ?_⟩
  · rw [← List.pairwise_map, hcounts, List.pairwise_map]
    exact hdb.stores.pairwise_nodesOfKey hdb.sorted _
  · rw [forEachHit, hdb.stores.select_eq hdb.sorted hc, ← Visitor.fst_visit]
    exact ⟨_, rfl⟩

end Catalog

namespace CatalogSession

variable {x : CatalogSession} {db : Database} {kept earlier : List Heap} {calls : List CatalogCall}

theorem Keeps.searchable (hx : x.Keeps db kept earlier) (hs : db.Sorted)
    (hsmall : ∀ h ∈ earlier, h.countOf .node < 65536) : Catalog.Searchable db kept where
  sorted := hs
  stores := hx.holds.stores
  encodable := hx.kept_encodable
  small k hk := hsmall k (hx.represent.subset k hk)

theorem Keeps.exists_reader (hx : x.Keeps db kept earlier) (hdb : Catalog.Searchable db kept) (hr : x.Rooted)
    (hlt : kept.length < 0x10000000000000000) :
    ∃ s reader, (x.storage.closeCatalog x.catalog).1.openCatalog x.catalog.path true = (s, .ok reader) ∧
      ∃ db', reader.database = some db' ∧ Catalog.Searchable db' kept := by
  obtain ⟨db₀, place, hwritten, hlocate⟩ := hr
  obtain ⟨db', hflushed, -, hstores, -, hopen⟩ := hx.holds.exists_flushed hlt
  obtain ⟨s, hs, -⟩ := Storage.openCatalog_closeCatalog rfl hwritten hlocate hflushed (hopen x.catalog.path true)
  exact ⟨s, _, hs, db', rfl, hx.holds.sorted_flushed hflushed hdb.sorted, hstores, hdb.encodable, hdb.small⟩

theorem enumerates_added {s s₀ : Storage} {c₀ : Catalog} {path : Bytes} {min : Int}
    (hopen : s.openCatalog path false = (s₀, .ok c₀)) (hnew : c₀.database = some {})
    (hcalls : ∀ h ∈ offered calls, h.Encodable) (hsmall : ∀ h ∈ offered calls, h.countOf .node < 65536)
    (hplace : .reopen ∈ calls → ∃ place, s₀.locate path = .ok place) (hlt : calls.length < 0x8000000000000000)
    (hmin : 0 ≤ min) (hmin' : min < 65536) (max : Int) :
    ∃ x answers, run ⟨s₀, c₀⟩ calls = .ok (x, answers) ∧ answers.length = (offered calls).length ∧
      (∀ i h, (offered calls)[i]? = some h →
        (answers[i]? = some true ↔ ∀ g ∈ (offered calls).take i, ¬ g.Isomorphic h)) ∧
      x.catalog.Enumerates min max ((taken (offered calls) answers).filter (Catalog.InRange min max)) ∧
      ((∃ place, s₀.locate path = .ok place) →
        ∃ s' reader, (x.storage.closeCatalog x.catalog).1.openCatalog path true = (s', .ok reader) ∧
          reader.Enumerates min max ((taken (offered calls) answers).filter (Catalog.InRange min max))) := by
  obtain ⟨hstart, hroot⟩ := keeps_of_openCatalog hopen hnew
  obtain ⟨x, answers, db, hrun, hpath, hx, -, hsorted, hxroot, hcount, htell⟩ :=
    hstart.run_taken hcalls (fun hr => hroot (hplace hr)) (by simpa using hlt)
  rw [List.nil_append, List.nil_append] at hx
  have hdb := hx.searchable (hsorted .nil) hsmall
  have hkept : (taken (offered calls) answers).length < 0x10000000000000000 := by
    have hle := (length_taken_le (offered calls) answers).trans (List.length_filterMap_le _ _)
    omega
  refine ⟨x, answers, hrun, hcount, htell, hdb.enumerates hx.holds.database hmin hmin' max, fun hthere => ?_⟩
  obtain ⟨s', reader, hreader, db', hread, hdb'⟩ := hx.exists_reader hdb (hxroot (hroot hthere)) hkept
  rw [hpath, Storage.path_of_openCatalog hopen] at hreader
  exact ⟨s', reader, hreader, hdb'.enumerates hread hmin hmin' max⟩

theorem enumerates_added_loops :
    ({} : Storage).openCatalog "lists" false = (⟨[(["lists"], .database {} .writer)]⟩, .ok { path := "lists" }) ∧
    Heap.loops.Encodable ∧ Heap.turnedLoops.Encodable ∧ Heap.empty.Encodable ∧
    ∃ x, run ⟨⟨[(["lists"], .database {} .writer)]⟩, { path := "lists" }⟩
        [.add .loops, .reopen, .add .turnedLoops, .add .empty] = .ok (x, [true, false, true]) ∧
      x.catalog.Enumerates 0 0 [.loops, .empty] ∧
      ∃ s reader, (x.storage.closeCatalog x.catalog).1.openCatalog "lists" true = (s, .ok reader) ∧
        reader.Enumerates 0 0 [.loops, .empty] := by
  have hopen : ({} : Storage).openCatalog "lists" false =
      (⟨[(["lists"], .database {} .writer)]⟩, .ok { path := "lists" }) := by decide
  have hloops : Heap.loops.Encodable :=
    ⟨Heap.wellFormed_loops, by decide, by decide, by decide, by decide, by decide, by decide⟩
  have hturned : Heap.turnedLoops.Encodable :=
    ⟨Heap.wellFormed_turnedLoops, by decide, by decide, by decide, by decide, by decide, by decide⟩
  have hempty : Heap.empty.Encodable :=
    ⟨Heap.wellFormed_empty, by decide, by decide, by decide, by decide, by decide, by decide⟩
  have hoffered : offered [.add .loops, .reopen, .add .turnedLoops, .add .empty] =
      [.loops, .turnedLoops, .empty] := rfl
  have hcalls : ∀ h ∈ offered [.add .loops, .reopen, .add .turnedLoops, .add .empty], h.Encodable := by
    rw [hoffered]
    simp [hloops, hturned, hempty]
  have hsmall : ∀ h ∈ offered [.add .loops, .reopen, .add .turnedLoops, .add .empty], h.countOf .node < 65536 := by
    rw [hoffered]
    decide
  obtain ⟨x, answers, hrun, hcount, htell, hhere, hthere⟩ :=
    enumerates_added hopen rfl hcalls hsmall (fun _ => ⟨_, rfl⟩) (by decide) (Int.le_refl 0) (by decide) 0
  rw [hoffered] at hcount htell hhere hthere
  have hanswers : answers = [true, false, true] := by
    obtain ⟨a, b, c, rfl⟩ := List.length_eq_three.mp hcount
    have ha : a = true := by simpa using htell 0 .loops rfl
    have hb : ¬ b = true := fun h => (htell 1 .turnedLoops rfl).mp (congrArg some h) .loops (by simp)
      ((Heap.equals_iff hloops.toSound hturned.toSound).mp (by decide))
    have hother (h : Heap) (hs : h.Sound) (he : h.equals .empty = false) : ¬ h.Isomorphic .empty := by
      rw [← Heap.equals_iff hs hempty.toSound, he]
      exact Bool.false_ne_true
    have hc : c = true := Option.some.inj ((htell 2 .empty rfl).mpr (by
      simp [hother .loops hloops.toSound (by decide), hother .turnedLoops hturned.toSound (by decide)]))
    rw [ha, Bool.eq_false_iff.mpr hb, hc]
  subst hanswers
  exact ⟨hopen, hloops, hturned, hempty, x, hrun, hhere, hthere ⟨_, rfl⟩⟩

end CatalogSession

end HeapAbstraction
