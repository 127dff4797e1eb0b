import HeapAbstraction.Proofs.Selection
import HeapAbstraction.Proofs.ReadBack

namespace HeapAbstraction

namespace Catalog

variable {c : Catalog} {db : Database} {h k : Heap} {kept heaps : List Heap} {min max : Int}

structure Storable (h : Heap) : Prop extends Heap.WellFormed h where
  idle : h.Idle
  within : h.Within Encoding.lengthBound Encoding.lengthBound

def isLegible (h : Heap) : Bool := (heapOf? h.encode).isSome

theorem Storable.sameAnswers (hh : Storable h) (hread : heapOf? h.encode = some k) : h.SameAnswers k := by
  cases hd : Heap.decode h.encode with
  | error e =>
    rw [heapOf?, hd] at hread
    cases hread
  | ok k' =>
    rw [heapOf?, hd] at hread
    obtain rfl : k' = k := Option.some.inj hread
    have henc := hh.within.encodable_of_decode hh.toWellFormed hh.idle hd
    obtain ⟨j, hj, hsame⟩ := henc.exists_decode []
    rw [List.append_nil, hd, Except.ok.injEq] at hj
    rw [hj]
    exact (hsame.moved hh.idle).sameAnswers hh.toWellFormed

theorem hits_of_entries {entries : List (Bytes × Bytes)} {met : List Heap} (hmet : entries.Forall₂ EntryOf met)
    (hstore : ∀ k ∈ met, Storable k) :
    (met.filter isLegible).Forall₂ Heap.SameAnswers (entries.filterMap (fun e => heapOf? e.2)) := by
  induction hmet with
  | nil => exact .nil
  | @cons e k entries met hek _ ih =>
    obtain ⟨i, rfl⟩ := hek
    obtain ⟨hk, hmet⟩ := List.forall_mem_cons.mp hstore
    -- an entry that cannot be read back is passed over
    rw [List.filter_cons, List.filterMap_cons, isLegible]
    cases hread : heapOf? k.encode with
    | none => exact ih hmet
    | some k' => exact .cons (hk.sameAnswers hread) (ih hmet)

def Shows (c : Catalog) (min max : Int) (heaps : List Heap) : Prop :=
  ∃ found hits : List Heap, found.Perm heaps ∧ found.Forall₂ Heap.SameAnswers hits ∧
    ∀ {σ : Type} (v : Visitor σ Heap) (memory : σ), c.forEachHit min max v memory = .ok (v.visit memory hits)

def Respects (c : Catalog) (min max : Int) : Prop :=
  ∀ {σ : Type} (v : Visitor σ Heap) (memory memory' : σ) (seen : List Heap),
    c.forEachHit min max v memory = .ok (seen, memory') → ∀ h ∈ seen, InRange min max h

theorem Stores.shows (hdb : Stores db kept) (hs : db.Sorted) (hc : c.database = some db)
    (hstore : ∀ k ∈ kept, Storable k) (min max : Int) :
    c.Shows min max (kept.filter (fun h => isLegible h && InKeyRange min max h)) := by
  obtain ⟨met, hperm, hmet⟩ := hdb.exists_met min max
  have hsub : ∀ k ∈ met, Storable k := fun k hk => hstore k (List.mem_filter.mp (hperm.subset hk)).1
  refine ⟨_, _, ?_, hits_of_entries hmet hsub, fun v memory => ?_⟩
  · rw [← List.filter_filter]
    exact hperm.filter _
  · rw [forEachHit, hdb.select_eq hs hc]
    rfl

theorem Shows.respects_iff (hc : c.Shows min max heaps) : c.Respects min max ↔ ∀ h ∈ heaps, InRange min max h := by
  obtain ⟨found, hits, hperm, hsame, hvisit⟩ := hc
  have hrange {h k : Heap} (hhk : h.SameAnswers k) : InRange min max k ↔ InRange min max h := by
    rw [InRange, InRange, hhk.countOf]
  constructor
  · -- a visitor that always wants more sees them all
    intro hall h hh
    obtain ⟨i, hi, rfl⟩ := List.getElem_of_mem (hperm.symm.subset hh)
    have hi' : i < hits.length := hsame.length_eq ▸ hi
    have hseen := Visitor.fst_visit_of_forall (v := fun (_ : Unit) (_ : Heap) => (true, ())) (fun _ _ => rfl) () hits
    apply (hrange (hsame.get hi hi')).mp
    apply hall (fun _ _ => (true, ())) () _ _ (hvisit _ _)
    rw [hseen]
    exact List.get_mem hits ⟨i, hi'⟩
  · intro hheaps σ v memory memory' seen hseen h hh
    rw [hvisit, Except.ok.injEq] at hseen
    have hmem : h ∈ hits := by
      rw [← show (v.visit memory hits).1 = seen by rw [hseen], Visitor.fst_visit] at hh
      exact List.mem_of_mem_take hh
    obtain ⟨i, hi, rfl⟩ := List.getElem_of_mem hmem
    have hi' : i < found.length := hsame.length_eq ▸ hi
    exact (hrange (hsame.get hi' hi)).mpr (hheaps _ (hperm.subset (List.getElem_mem hi')))

theorem Holds.exists_insert (hc : c.Holds db kept) (h : Heap) (hlt : kept.length + 1 < 0x10000000000000000) :
    ∃ added c' db', c.insert h = .ok (added, c') ∧ c'.path = c.path ∧
      c'.Holds db' (kept ++ if added then [h] else []) ∧ (db.Sorted → db'.Sorted) := by
  cases hclass : hasClassOf db h with
  | true => exact ⟨false, c, db, hc.insert_present hclass, rfl, by simpa using hc, id⟩
  | false =>
    obtain ⟨c', hinsert, hpath, hc'⟩ := hc.insert_absent hclass hlt
    exact ⟨true, c', _, hinsert, hpath, hc', fun hs => hs.put _ _⟩

end Catalog

namespace CatalogSession

variable {x : CatalogSession} {db : Database} {kept : List Heap} {calls : List CatalogCall}

theorem mem_of_mem_taken {h : Heap} {heaps : List Heap} {answers : List Bool} (hh : h ∈ taken heaps answers) :
    h ∈ heaps := by
  obtain ⟨p, hp, rfl⟩ := List.mem_map.mp hh
  exact (List.of_mem_zip (List.mem_filter.mp hp).1).1

theorem exists_run (hx : x.catalog.Holds db kept) (hrooted : .reopen ∈ calls → x.Rooted)
    (hlt : kept.length + calls.length < 0x8000000000000000) :
    ∃ y answers db', x.run calls = .ok (y, answers) ∧ answers.length = (offered calls).length ∧
      y.catalog.Holds db' (kept ++ taken (offered calls) answers) ∧ (db.Sorted → db'.Sorted) := by
  induction calls generalizing x db kept with
  | nil => exact ⟨x, [], db, rfl, rfl, by simpa [offered, taken] using hx, id⟩
  | cons call calls ih =>
    rw [List.length_cons] at hlt
    cases call with
    | add h =>
      have hoffered : offered (.add h :: calls) = h :: offered calls := rfl
      obtain ⟨added, c, db₁, hinsert, hpath, hx₁, hsorted₁⟩ := hx.exists_insert h (by omega)
      have hroot : .reopen ∈ calls → Rooted ⟨x.storage, c⟩ := by
        intro hr
        obtain ⟨db₀, place, hwritten, hlocate⟩ := hrooted (List.mem_cons_of_mem _ hr)
        exact ⟨db₀, place, hwritten, by rwa [hpath]⟩
      have hlen : (kept ++ if added then [h] else []).length ≤ kept.length + 1 := by
        cases added <;> simp
      obtain ⟨y, answers, db', hrun, hcount, hy, hsorted⟩ := ih (x := ⟨x.storage, c⟩) hx₁ hroot (by omega)
      refine ⟨y, added :: answers, db', ?_, congrArg (· + 1) hcount, ?_, fun hs => hsorted (hsorted₁ hs)⟩
      · rw [run, hinsert]
        change (run ⟨x.storage, c⟩ calls >>= _) = _
        rw [hrun]
        rfl
      · rwa [hoffered, taken_cons, ← List.append_assoc]
    | reopen =>
      obtain ⟨x₁, db₁, hreopen, -, hr₁, hx₁, -, hsorted₁⟩ := exists_reopen hx (hrooted List.mem_cons_self) (by omega)
      obtain ⟨y, answers, db', hrun, hcount, hy, hsorted⟩ := ih hx₁ (fun _ => hr₁) (by omega)
      refine ⟨y, answers, db', ?_, hcount, hy, fun hs => hsorted (hsorted₁ hs)⟩
      rw [run, hreopen]
      exact hrun

theorem selects_by_low_bits {s s₀ : Storage} {c₀ : Catalog} {path : Bytes}
    (hopen : s.openCatalog path false = (s₀, .ok c₀)) (hnew : c₀.database = some {})
    (hcalls : ∀ h ∈ offered calls, Catalog.Storable h)
    (hplace : .reopen ∈ calls → ∃ place, s₀.locate path = .ok place) (hlt : calls.length < 0x8000000000000000)
    (min max : Int) :
    ∃ x answers, run ⟨s₀, c₀⟩ calls = .ok (x, answers) ∧ answers.length = (offered calls).length ∧
      x.catalog.Shows min max
        ((taken (offered calls) answers).filter (fun h => Catalog.isLegible h && Catalog.InKeyRange min max h)) ∧
      (x.catalog.Respects min max ↔ ∀ h ∈ taken (offered calls) answers,
        Catalog.isLegible h = true → Catalog.InKeyRange min max h → Catalog.InRange min max h) ∧
      (0 ≤ min → min < 65536 → (∀ h ∈ offered calls, h.countOf .node < 65536) → x.catalog.Respects min max) := by
  obtain ⟨hstart, hroot⟩ := keeps_of_openCatalog hopen hnew
  obtain ⟨x, answers, db, hrun, hcount, hx, hsorted⟩ :=
    exists_run hstart.holds (fun hr => hroot (hplace hr)) (by simpa using hlt)
  rw [List.nil_append] at hx
  have hshows := hx.stores.shows (hsorted .nil) hx.database (fun k hk => hcalls k (mem_of_mem_taken hk)) min max
  have hiff : x.catalog.Respects min max ↔ ∀ h ∈ taken (offered calls) answers,
      Catalog.isLegible h = true → Catalog.InKeyRange min max h → Catalog.InRange min max h := by
    rw [hshows.respects_iff]
    simp only [List.mem_filter, Bool.and_eq_true, decide_eq_true_iff, and_imp]
  refine ⟨x, answers, hrun, hcount, hshows, hiff, fun hmin hmin' hsmall => hiff.mpr fun h hh _ hr => ?_⟩
  exact (Catalog.inKeyRange_iff hmin hmin' (hsmall h (mem_of_mem_taken hh))).mp hr

theorem selects_by_low_bits_loops :
    ({} : Storage).openCatalog "lists" false = (⟨[(["lists"], .database {} .writer)]⟩, .ok { path := "lists" }) ∧
    Catalog.Storable .loops ∧ Catalog.Storable .empty ∧
    ∃ x, run ⟨⟨[(["lists"], .database {} .writer)]⟩, { path := "lists" }⟩ [.add .loops, .reopen, .add .empty] =
        .ok (x, [true, true]) ∧ x.catalog.Respects 1 2 ∧ ¬ x.catalog.Respects 65537 0 := by
  have hopen : ({} : Storage).openCatalog "lists" false =
      (⟨[(["lists"], .database {} .writer)]⟩, .ok { path := "lists" }) := by decide
  have hloops : Catalog.Storable .loops :=
    ⟨Heap.wellFormed_loops, by decide, ⟨by decide, by decide, by decide, by decide, by decide⟩⟩
  have hempty : Catalog.Storable .empty :=
    ⟨Heap.wellFormed_empty, by decide, ⟨by decide, by decide, by decide, by decide, by decide⟩⟩
  have hcalls : ∀ h ∈ offered [.add .loops, .reopen, .add .empty], Catalog.Storable h := by
    simp [offered, CatalogCall.heap?, hloops, hempty]
  have hsmall : ∀ h ∈ offered [.add .loops, .reopen, .add .empty], h.countOf .node < 65536 := by decide
  obtain ⟨y, hy⟩ : ∃ y, run ⟨⟨[(["lists"], .database {} .writer)]⟩, { path := "lists" }⟩
      [.add .loops, .reopen, .add .empty] = .ok (y, [true, true]) := ⟨_, rfl⟩
  refine ⟨hopen, hloops, hempty, y, hy, ?_, fun hrespects => ?_⟩
  · obtain ⟨x, answers, hrun, -, -, -, hall⟩ :=
      selects_by_low_bits hopen rfl hcalls (fun _ => ⟨_, rfl⟩) (by decide) 1 2
    obtain ⟨rfl, rfl⟩ := Prod.mk.inj (Except.ok.inj (hy.symm.trans hrun))
    exact hall (by decide) (by decide) hsmall
  · obtain ⟨x, answers, hrun, -, -, hiff, -⟩ :=
      selects_by_low_bits hopen rfl hcalls (fun _ => ⟨_, rfl⟩) (by decide) 65537 0
    obtain ⟨rfl, rfl⟩ := Prod.mk.inj (Except.ok.inj (hy.symm.trans hrun))
    have hbad := hiff.mp hrespects .loops List.mem_cons_self (by decide) (by decide)
    exact absurd hbad (by decide)

theorem forEachHit_beyond_low_bits : ∃ c, ({} : Catalog).insert .loops = .ok (true, c) ∧
    c.forEachHit 65536 0 (fun (n : Nat) _ => (true, n + 1)) 0 = .ok ([.loops], 1) ∧
    Heap.loops.countOf .node = 2 ∧ ¬ Catalog.InRange 65536 0 .loops :=
  ⟨_, rfl, by decide +kernel, by decide, by decide⟩

end CatalogSession

end HeapAbstraction
