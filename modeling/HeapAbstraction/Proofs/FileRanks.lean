import HeapAbstraction.Proofs.BodyMeaning

namespace HeapAbstraction.HeapFile

section Lookup

variable {ranks : List (Bytes × Int)} {label x : Bytes} {rank r : Int}

theorem lookup_concat (hn : ranks.lookup label = none) :
    (ranks ++ [(label, rank)]).lookup x = some r ↔ ranks.lookup x = some r ∨ x = label ∧ rank = r := by
  rw [List.lookup_append, lookup_cons_ite]
  by_cases hx : x = label
  · subst hx
    simp [hn]
  · simp [hx]

theorem nodup_concat (hn : ranks.lookup label = none) (hd : (ranks.map Prod.fst).Nodup) :
    ((ranks ++ [(label, rank)]).map Prod.fst).Nodup := by
  rw [List.map_append, List.map_singleton, List.nodup_append]
  refine ⟨hd, List.nodup_singleton _, ?_⟩
  rintro x hx y hy rfl
  obtain ⟨p, hp, hpx⟩ := List.mem_map.mp hx
  have hne := List.lookup_eq_none_iff.mp hn p hp
  simp [hpx, List.mem_singleton.mp hy] at hne

theorem declareRanks_ok {ds : List Declaration} {ranks' : List (Bytes × Int)}
    (hd : Definitions.declareRanks ranks ds = .ok ranks') :
    (∀ label rank, ranks'.lookup label = some rank ↔ ranks.lookup label = some rank ∨ .nonterminal label rank ∈ ds) ∧
      ((ranks.map Prod.fst).Nodup → (ranks'.map Prod.fst).Nodup) := by
  induction ds generalizing ranks with
  | nil =>
    cases hd
    simp
  | cons d ds ih =>
    cases d with
    | nonterminal label rank =>
      rw [Definitions.declareRanks] at hd
      split at hd
      · rename_i first hfirst
        split at hd
        · cases hd
        · rename_i heq
          obtain ⟨hlookup, hnodup⟩ := ih hd
          refine ⟨fun x r => ?_, hnodup⟩
          rw [hlookup, List.mem_cons, ← or_assoc]
          refine or_congr_left (iff_self_or.mpr fun h => ?_)
          cases h
          rw [hfirst, not_not.mp heq]
      · rename_i hnone
        obtain ⟨hlookup, hnodup⟩ := ih hd
        refine ⟨fun x r => ?_, fun hn => hnodup (nodup_concat hnone hn)⟩
        rw [hlookup, lookup_concat hnone, List.mem_cons, or_assoc, Declaration.nonterminal.injEq, eq_comm (a := rank)]
    | rule label body =>
      simpa using ih hd
    | heap body =>
      simpa using ih hd

end Lookup

def HeapDef.Ranked (d : HeapDef) (nt : Nonterminal) : Prop :=
  ∀ e nt' ys, d.heap.state.hyperedge e = some (nt', ys) → nt'.label = nt.label → nt' = nt ∧ ys.length = nt.rank

theorem ranked_of_ofBody {ranks : List (Bytes × Int)} {body : List Statement} {d : HeapDef} {label : Bytes} {rank : Int}
    (hd : HeapDef.ofBody ranks body = .ok d) (hr : ranks.lookup label = some rank) : d.Ranked ⟨label, rank⟩ := by
  rintro e nt ys he rfl
  have hm := meaning_of_ofBody hd
  have hc := (acceptable_iff.mp (acceptable_of_ofBody hd)).1
  have hmem : some (nt, ys) ∈ d.heap.nonterminalEdges.map d.heap.state.hyperedge :=
    he ▸ List.mem_map_of_mem (hm.wellFormed.mem_nonterminalEdges.mpr ⟨_, he⟩)
  rw [hm.hyperedges] at hmem
  obtain ⟨p, hp, heq⟩ := List.mem_map.mp hmem
  cases heq
  obtain rfl := hc.rank p hp rank hr
  exact ⟨rfl, by simp⟩

inductive Entry where
  | rule (r : RuleDef)
  | heap (d : HeapDef)

namespace Entry

def body : Entry → HeapDef
  | .rule r => r.body
  | .heap d => d

def rule? : Entry → Option RuleDef
  | .rule r => some r
  | .heap _ => none

def heap? : Entry → Option HeapDef
  | .rule _ => none
  | .heap d => some d

inductive Of : Declaration → Entry → Prop
  | rule {label body d} : Meaning body d → Of (.rule label body) (.rule ⟨⟨label, d.heap.externalCount⟩, d⟩)
  | heap {body d} : Meaning body d → Of (.heap body) (.heap d)

end Entry

def Declaration.hasBody : Declaration → Bool
  | .nonterminal _ _ => false
  | _ => true

structure Definitions.Coherent (file done : List Declaration) (entries : List Entry) (defs : Definitions) : Prop where
  described : List.Forall₂ Entry.Of (done.filter Declaration.hasBody) entries
  rules : defs.rules = entries.filterMap Entry.rule?
  heaps : defs.heaps = entries.filterMap Entry.heap?
  ranks : ∀ label rank, defs.ranks.lookup label = some rank ↔
    .nonterminal label rank ∈ file ∨ ⟨label, rank⟩ ∈ defs.rules.map RuleDef.nonterminal
  nodup : (defs.ranks.map Prod.fst).Nodup
  declared : ∀ label rank, .nonterminal label rank ∈ file → ∀ entry ∈ entries, entry.body.Ranked ⟨label, rank⟩
  later : entries.Pairwise (fun a b => ∀ r, a = .rule r → b.body.Ranked r.nonterminal)

namespace Definitions

variable {file done : List Declaration} {entries : List Entry} {defs defs' : Definitions}

theorem addRule_ok {label : Bytes} {d : HeapDef} (ha : defs.addRule label d = .ok defs') :
    defs'.rules = defs.rules ++ [⟨⟨label, d.heap.externalCount⟩, d⟩] ∧ defs'.heaps = defs.heaps ∧
      (∀ x r, defs'.ranks.lookup x = some r ↔ defs.ranks.lookup x = some r ∨ x = label ∧ d.heap.externalCount = r) ∧
        ((defs.ranks.map Prod.fst).Nodup → (defs'.ranks.map Prod.fst).Nodup) := by
  simp only [addRule] at ha
  split at ha
  · rename_i declared hlookup
    split at ha
    · cases ha
    · rename_i heq
      cases ha
      refine ⟨rfl, rfl, fun x r => (or_iff_left_of_imp ?_).symm, id⟩
      rintro ⟨rfl, rfl⟩
      rw [hlookup, not_not.mp heq]
  · rename_i hnone
    cases ha
    exact ⟨rfl, rfl, fun x r => lookup_concat hnone, nodup_concat hnone⟩

namespace Coherent

variable (hc : Coherent file done entries defs)

include hc

theorem concat {declaration : Declaration} (entry : Entry) {body : List Statement}
    (hd : HeapDef.ofBody defs.ranks body = .ok entry.body) (hof : Entry.Of declaration entry) :
    List.Forall₂ Entry.Of ((done ++ [declaration]).filter Declaration.hasBody) (entries ++ [entry]) ∧
      (∀ label rank, .nonterminal label rank ∈ file → ∀ a ∈ entries ++ [entry], a.body.Ranked ⟨label, rank⟩) ∧
        (entries ++ [entry]).Pairwise (fun a b => ∀ r, a = .rule r → b.body.Ranked r.nonterminal) := by
  refine ⟨?_, fun label rank hm a ha => ?_, ?_⟩
  · have hbody : declaration.hasBody = true := by cases hof <;> rfl
    rw [List.filter_append, List.filter_cons_of_pos hbody]
    exact List.rel_append hc.described (.cons hof .nil)
  · rcases List.mem_append.mp ha with ha | ha
    · exact hc.declared label rank hm a ha
    · rw [List.mem_singleton.mp ha]
      exact ranked_of_ofBody hd ((hc.ranks label rank).mpr (.inl hm))
  · refine List.pairwise_append.mpr ⟨hc.later, List.pairwise_singleton _ _, ?_⟩
    rintro a ha b hb r rfl
    rw [List.mem_singleton.mp hb]
    refine ranked_of_ofBody hd ((hc.ranks _ _).mpr (.inr (List.mem_map_of_mem ?_)))
    rw [hc.rules]
    exact List.mem_filterMap.mpr ⟨_, ha, rfl⟩

theorem addDeclaration {declaration : Declaration} (ha : defs.addDeclaration declaration = .ok defs') :
    ∃ entries', Coherent file (done ++ [declaration]) entries' defs' := by
  cases declaration with
  | nonterminal label rank =>
    cases ha
    exact ⟨entries, by simpa [Declaration.hasBody] using hc.described, hc.rules, hc.heaps, hc.ranks, hc.nodup, hc.declared,
      hc.later⟩
  | rule label body =>
    rw [Definitions.addDeclaration] at ha
    split at ha
    · cases ha
    · rename_i d hd
      obtain ⟨hrules, hheaps, hranks, hnodup⟩ := addRule_ok ha
      obtain ⟨hdescribed, hdeclared, hlater⟩ :=
        hc.concat (.rule ⟨⟨label, d.heap.externalCount⟩, d⟩) hd (.rule (meaning_of_ofBody hd))
      refine ⟨_, hdescribed, ?_, ?_, fun x r => ?_, hnodup hc.nodup, hdeclared, hlater⟩
      · rw [hrules, hc.rules, List.filterMap_append]
        rfl
      · rw [hheaps, hc.heaps, List.filterMap_append]
        exact (List.append_nil _).symm
      · rw [hranks, hc.ranks, hrules, List.map_append, List.mem_append, or_assoc, List.map_singleton, List.mem_singleton,
          Nonterminal.mk.injEq, eq_comm (a := r)]
  | heap body =>
    rw [Definitions.addDeclaration] at ha
    split at ha
    · cases ha
    · rename_i d hd
      cases ha
      obtain ⟨hdescribed, hdeclared, hlater⟩ := hc.concat (.heap d) hd (.heap (meaning_of_ofBody hd))
      refine ⟨_, hdescribed, ?_, ?_, hc.ranks, hc.nodup, hdeclared, hlater⟩
      · rw [hc.rules, List.filterMap_append]
        exact (List.append_nil _).symm
      · rw [hc.heaps, List.filterMap_append]
        rfl

theorem addDeclarations {ds : List Declaration} (ha : defs.addDeclarations ds = .ok defs') :
    ∃ entries', Coherent file (done ++ ds) entries' defs' := by
  induction ds generalizing done entries defs with
  | nil =>
    cases ha
    exact ⟨entries, by rwa [List.append_nil]⟩
  | cons d ds ih =>
    obtain ⟨defs₁, hstep, hrest⟩ := bind_ok ha
    obtain ⟨entries₁, hc₁⟩ := hc.addDeclaration hstep
    rw [List.append_cons]
    exact ih hc₁ hrest

end Coherent

theorem exists_coherent {ds : List Declaration} (hd : ofDeclarations ds = .ok defs) :
    ∃ entries, Coherent ds ds entries defs := by
  obtain ⟨ranks, hranks, hrest⟩ := bind_ok hd
  obtain ⟨hlookup, hnodup⟩ := declareRanks_ok hranks
  have hstart : Coherent ds [] [] { ranks := ranks } :=
    ⟨.nil, rfl, rfl, by simpa using hlookup, hnodup List.nodup_nil, by simp, .nil⟩
  exact hstart.addDeclarations hrest

end Definitions

theorem readDefinitions_ranks {source : Bytes} {defs : Definitions} (hr : readDefinitions source = .ok defs) :
    ∃ ds entries, parse source = .ok ds ∧ List.Forall₂ Entry.Of (ds.filter Declaration.hasBody) entries ∧
      defs.rules = entries.filterMap Entry.rule? ∧ defs.heaps = entries.filterMap Entry.heap? ∧
      (∀ label rank rank', .nonterminal label rank ∈ ds → .nonterminal label rank' ∈ ds → rank = rank') ∧
      (∀ label rank, .nonterminal label rank ∈ ds →
        (∀ r ∈ defs.rules, r.nonterminal.label = label → (r.body.heap.externalCount : Int) = rank) ∧
          ∀ entry ∈ entries, entry.body.Ranked ⟨label, rank⟩) ∧
      (∀ r ∈ defs.rules, ∀ r' ∈ defs.rules, r.nonterminal.label = r'.nonterminal.label → r.nonterminal = r'.nonterminal) ∧
      entries.Pairwise (fun a b => ∀ r, a = .rule r → b.body.Ranked r.nonterminal) ∧
      (∀ label rank, defs.ranks.lookup label = some rank ↔
        .nonterminal label rank ∈ ds ∨ ⟨label, rank⟩ ∈ defs.rules.map RuleDef.nonterminal) ∧
      (defs.ranks.map Prod.fst).Nodup := by
  rw [readDefinitions] at hr
  split at hr
  · cases hr
  · rename_i ds hp
    obtain ⟨entries, hc⟩ := Definitions.exists_coherent hr
    have hrule (r : RuleDef) (hm : r ∈ defs.rules) : r.nonterminal.rank = r.body.heap.externalCount ∧
        defs.ranks.lookup r.nonterminal.label = some r.nonterminal.rank := by
      refine ⟨?_, (hc.ranks _ _).mpr (.inr (List.mem_map_of_mem hm))⟩
      rw [hc.rules] at hm
      obtain ⟨entry, hentry, hr⟩ := List.mem_filterMap.mp hm
      obtain ⟨d, -, hof⟩ := exists_of_mem_forall₂ hc.described hentry
      cases hof <;> cases hr
      rfl
    have hdeclared (label : Bytes) (rank : Int) (hm : .nonterminal label rank ∈ ds) :
        defs.ranks.lookup label = some rank := (hc.ranks label rank).mpr (.inl hm)
    refine ⟨ds, entries, hp, hc.described, hc.rules, hc.heaps, ?_, ?_, ?_, hc.later, hc.ranks, hc.nodup⟩
    · intro label rank rank' hm hm'
      exact Option.some.inj ((hdeclared label rank hm).symm.trans (hdeclared label rank' hm'))
    · refine fun label rank hm => ⟨?_, hc.declared label rank hm⟩
      rintro r hr rfl
      obtain ⟨hrank, hlookup⟩ := hrule r hr
      rw [← hrank]
      exact Option.some.inj (hlookup.symm.trans (hdeclared _ rank hm))
    · intro r hr r' hr' hlabel
      have hlookup := (hrule r hr).2
      rw [hlabel, (hrule r' hr').2] at hlookup
      obtain ⟨⟨label, rank⟩, d⟩ := r
      obtain ⟨⟨label', rank'⟩, d'⟩ := r'
      cases hlabel
      cases hlookup
      rfl

def mixedText : Bytes :=
  "rule K\x7bnodes x:N L(x,x)\x7d nonterminal L/2 rule M\x7bnodes x,y:N ext x,y\x7d " ++
    "heap\x7bnodes u,v:N M(u,v) P(u)\x7d rule P\x7b\x7d"

def mixedFile : List Declaration := [
  .rule "K" [.nodes ["x"] "N", .hyperedge "L" ["x", "x"]], .nonterminal "L" 2,
  .rule "M" [.nodes ["x", "y"] "N", .ext ["x", "y"]],
  .heap [.nodes ["u", "v"] "N", .hyperedge "M" ["u", "v"], .hyperedge "P" ["u"]], .rule "P" []]

def HeapDef.labels (d : HeapDef) : List Label := d.heap.elements.map Element.label

theorem readDefinitions_ranks_mixed : ∃ defs, ∃ entries : List Entry, readDefinitions mixedText = .ok defs ∧
    defs.rules.map (fun r => (r.nonterminal, r.body.labels)) = [(⟨"K", 0⟩, [.node "N", .nonterminal ⟨"L", 2⟩]),
      (⟨"M", 2⟩, [.node "N", .node "N"]), (⟨"P", 0⟩, [])] ∧
    defs.heaps.map HeapDef.labels = [[.node "N", .node "N", .nonterminal ⟨"M", 2⟩, .nonterminal ⟨"P", 1⟩]] ∧
    defs.rules = entries.filterMap Entry.rule? ∧ defs.heaps = entries.filterMap Entry.heap? ∧
    (∀ entry ∈ entries, entry.body.Ranked ⟨"L", 2⟩) ∧
    entries.Pairwise (fun a b => ∀ r, a = .rule r → b.body.Ranked r.nonterminal) ∧
    defs.ranks.lookup ("L" : Bytes) = some 2 ∧ defs.ranks.lookup ("M" : Bytes) = some 2 ∧
    defs.ranks.lookup ("P" : Bytes) = some 0 := by
  have hparse : parse mixedText = .ok mixedFile := rfl
  have hpinned : (fun defs : Definitions => (defs.rules.map (fun r => (r.nonterminal, r.body.labels)),
      defs.heaps.map HeapDef.labels)) <$> readDefinitions mixedText =
      .ok ([(⟨"K", 0⟩, [.node "N", .nonterminal ⟨"L", 2⟩]), (⟨"M", 2⟩, [.node "N", .node "N"]), (⟨"P", 0⟩, [])],
        [[.node "N", .node "N", .nonterminal ⟨"M", 2⟩, .nonterminal ⟨"P", 1⟩]]) := rfl
  obtain ⟨defs, hdefs⟩ : ∃ defs, readDefinitions mixedText = .ok defs := ⟨_, rfl⟩
  rw [hdefs] at hpinned
  obtain ⟨hnts, hlabels⟩ := Prod.mk.inj (Except.ok.inj hpinned)
  obtain ⟨ds, entries, hp, -, hrules, hheaps, -, hdeclared, -, hlater, hranks, -⟩ := readDefinitions_ranks hdefs
  obtain rfl := Except.ok.inj (hparse.symm.trans hp)
  have hfst : defs.rules.map RuleDef.nonterminal = [⟨"K", 0⟩, ⟨"M", 2⟩, ⟨"P", 0⟩] := by
    have := congrArg (List.map Prod.fst) hnts
    rwa [List.map_map] at this
  refine ⟨defs, entries, hdefs, hnts, hlabels, hrules, hheaps, (hdeclared "L" 2 (by simp [mixedFile])).2, hlater,
    (hranks _ _).mpr (.inl (by simp [mixedFile])), (hranks _ _).mpr (.inr ?_), (hranks _ _).mpr (.inr ?_)⟩
  · simp [hfst]
  · simp [hfst]

end HeapAbstraction.HeapFile
