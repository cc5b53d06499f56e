import TagQuery.Proofs.Engine.Reanalysis

/-!
# Missing sets

The rounds of an analysis record the sets of one tag, each with the tag that it adds, and only when
they have ended are the larger right sides recorded. So every effective tag is a given tag or one of
a set of one, or is above such a tag, and the larger sets are exactly those that are open at the
end.

## Main definitions

- `Engine.RecordsAdded`: between rounds, the recorded sets are those of the tags that were added.

## Main statements

- `Engine.RecordsAdded.applySingle`: applying a rule with one tag on the right side keeps them so.
- `Engine.close_records`: the recorded sets at the end, those of one tag before the larger ones.
- `Engine.missingSets_complete`: the missing sets of an analysis.
-/

namespace TagQuery

namespace TagSet

@[simp] theorem size_singleton (t : String) : (singleton t).size = 1 := rfl

/-- A set with a member that is not the only one has two members at least. -/
theorem two_le_size {s : TagSet} (hs : ∃ t, t ∈ s) (hne : ∀ t, s ≠ .singleton t) :
    2 ≤ s.size := by
  have hpos : s.size ≠ 0 := by
    obtain ⟨t, ht⟩ := hs
    exact List.length_pos_iff_exists_mem.2 ⟨t, ht⟩ |>.ne'
  have hone : s.size ≠ 1 := fun h => by
    obtain ⟨t, rfl⟩ := size_beq_one.1 (beq_iff_eq.2 h)
    exact hne t rfl
  omega

end TagSet

namespace Engine

/-! ## Recording -/

theorem nodup_record {missing : List TagSet} (h : missing.Nodup) (tags : TagSet) :
    (record missing tags).Nodup := by
  unfold record
  split
  · exact h
  · next hnot => exact List.nodup_append.2 ⟨h, List.nodup_singleton _, by grind⟩

/-- Sets are only ever recorded behind those that are there. -/
theorem foldl_record_eq_append (sets missing : List TagSet) :
    ∃ added, sets.foldl record missing = missing ++ added ∧ ∀ s ∈ added, s ∈ sets := by
  induction sets generalizing missing with
  | nil => exact ⟨[], (List.append_nil _).symm, by simp⟩
  | cons tags sets ih =>
    obtain ⟨added, hadded, hmem⟩ := ih (record missing tags)
    rw [List.foldl_cons, hadded]
    unfold record
    split
    · exact ⟨added, rfl, fun s hs => List.mem_cons_of_mem _ (hmem s hs)⟩
    · refine ⟨tags :: added, by simp, fun s hs => ?_⟩
      rcases List.mem_cons.1 hs with rfl | hs
      · exact List.mem_cons_self
      · exact List.mem_cons_of_mem _ (hmem s hs)

/-! ## Between rounds -/

/-- Every recorded set has one tag, which was not there at the start, and every tag that was added
is such a tag or above one. -/
structure RecordsAdded (e : Engine) (start : TagSet) (state : TagSet × List TagSet) : Prop where
  nodup : state.2.Nodup
  given : ∀ t ∈ start, t ∈ state.1
  single : ∀ s ∈ state.2, ∃ t, s = .singleton t ∧ t ∈ state.1 ∧ t ∉ start
  added : ∀ t ∈ state.1, t ∈ start ∨ ∃ x, .singleton x ∈ state.2 ∧ (t = x ∨ t ∈ e.ancestors x)

variable {e : Engine} {start : TagSet} {state : TagSet × List TagSet}

theorem recordsAdded_nil (e : Engine) (start : TagSet) : e.RecordsAdded start (start, []) where
  nodup := .nil
  given _ := id
  single _ hs := absurd hs List.not_mem_nil
  added _ := .inl

/-- A rule with one tag on the right side either finds it there, or adds and records it. -/
theorem RecordsAdded.applySingle (h : e.RecordsAdded start state) {r : TagRule} {t : String}
    (ht : r.right = .singleton t) : e.RecordsAdded start (e.applySingle state r) := by
  unfold Engine.applySingle
  split
  · exact h
  · next hright =>
    have hnew : t ∉ state.1 := fun hmem => hright <| TagSet.isSubset_iff.2 fun x hx => by
      rw [ht, TagSet.mem_singleton] at hx
      exact hx ▸ hmem
    rw [ht]
    have hadded {x : String} : x ∈ state.1 ∪ e.startOf (.singleton t) ↔
        x ∈ state.1 ∨ x = t ∨ x ∈ e.ancestors t := by simp [mem_startOf]
    refine ⟨nodup_record h.nodup _, fun x hx => hadded.2 (.inl (h.given x hx)), ?_, ?_⟩
    · intro s hs
      rcases mem_record.1 hs with hs | rfl
      · obtain ⟨x, hsx, hx, hstart⟩ := h.single s hs
        exact ⟨x, hsx, hadded.2 (.inl hx), hstart⟩
      · exact ⟨t, rfl, hadded.2 (.inr (.inl rfl)), fun hstart => hnew (h.given t hstart)⟩
    · intro x hx
      rcases hadded.1 hx with hx | hx
      · refine (h.added x hx).imp_right fun ⟨y, hy, hxy⟩ => ?_
        exact ⟨y, mem_record.2 (.inl hy), hxy⟩
      · exact .inr ⟨t, mem_record.2 (.inr rfl), hx⟩

theorem RecordsAdded.round (h : e.RecordsAdded start state) :
    e.RecordsAdded start (e.round state) :=
  List.foldlRecOn (e.singles state.1) e.applySingle h fun _ h' _ hr => by
    obtain ⟨-, -, t, ht, -⟩ := mem_singles.1 hr
    exact h'.applySingle ht

/-- Where all is there that is above a tag, the tags are the given ones and the recorded ones with
all that is above them. -/
theorem RecordsAdded.mem_iff {tags : TagSet} (h : e.RecordsAdded (e.startOf tags) state)
    (hclosed : e.AncestorClosed {t | t ∈ state.1}) {t : String} :
    t ∈ state.1 ↔
      ∃ x, (x ∈ tags ∨ .singleton x ∈ state.2) ∧ (t = x ∨ t ∈ e.ancestors x) := by
  constructor
  · intro ht
    rcases h.added t ht with hstart | ⟨x, hx, htx⟩
    · obtain ⟨x, hx, htx⟩ := mem_startOf.1 hstart
      exact ⟨x, .inl hx, htx⟩
    · exact ⟨x, .inr hx, htx⟩
  · rintro ⟨x, hx, htx⟩
    have hxmem : x ∈ state.1 := by
      rcases hx with hx | hx
      · exact h.given x (mem_startOf.2 ⟨x, hx, .inl rfl⟩)
      · obtain ⟨u, hu, humem, -⟩ := h.single _ hx
        exact TagSet.singleton_inj.1 hu ▸ humem
    rcases htx with rfl | htx
    · exact hxmem
    · exact hclosed x hxmem t htx

/-! ## The end -/

/-- What is recorded at the end: first the sets of one tag, among them those of all tags that were
added, and then the larger right sides that are open. -/
theorem close_records (he : e.Consistent) (start : TagSet) :
    ∃ ones choices, (e.close start []).2 = ones ++ choices ∧
      e.RecordsAdded start ((e.close start []).1, ones) ∧ (e.close start []).2.Nodup ∧
      (∀ s ∈ choices, 2 ≤ s.size) ∧
      ∀ s, s ∈ (e.close start []).2 ↔ s ∈ ones ∨ ∃ r ∈ e.rulesOf .implication,
        (∀ t ∈ r.left, t ∈ (e.close start []).1) ∧
          (¬∀ t ∈ r.right, t ∈ (e.close start []).1) ∧ r.right = s := by
  obtain ⟨ones, hones, hdone, hmissing⟩ :=
    close_ends (e.RecordsAdded start) (fun _ h => h.round) start [] (recordsAdded_nil e start)
  obtain ⟨choices, hchoices, hmem⟩ := foldl_record_eq_append
    (((e.rulesOf .implication).filter (applies (e.close start []).1)).map (·.right)) ones
  have hall : (e.close start []).2 = ones ++ choices := hmissing.trans hchoices
  have hnodup : (e.close start []).2.Nodup := by
    rw [hmissing]
    exact List.foldlRecOn _ record hones.nodup fun _ h tags _ => nodup_record h tags
  refine ⟨ones, choices, hall, hones, hnodup, fun s hs => ?_, fun s => ?_⟩
  · obtain ⟨r, hr, rfl⟩ := List.mem_map.1 (hmem s hs)
    obtain ⟨himplication, happlies⟩ := List.mem_filter.1 hr
    refine TagSet.two_le_size (he.sides r (List.mem_filter.1 himplication).1).right fun t ht => ?_
    -- a rule with one tag on the right side would have been left for another round
    have hsingle : r ∈ e.singles (e.close start []).1 :=
      List.mem_filter.2 ⟨hr, TagSet.size_beq_one.2 ⟨t, ht⟩⟩
    rw [hdone] at hsingle
    contradiction
  · rw [hmissing, mem_recorded]

/-- The missing sets of an analysis. None is there twice, and those of one tag come before the
larger ones. The tag of a set of one is effective, but neither a given tag nor above one. The larger
sets are the larger right sides of the implications whose left side is effective and whose right
side is not. The given tags and those of the sets of one, with all that is above them, are the
effective tags. -/
theorem missingSets_complete {rules : List TagRule} {properties : List (String × String)}
    {e : Engine} (h : ofRules rules properties = .ok e) (raw : List String) :
    let a := e.analyze raw
    a.normalized = e.normalize raw ∧ a.missingSets.Nodup ∧
      (∃ ones choices, a.missingSets = ones ++ choices ∧ (∀ s ∈ ones, s.size = 1) ∧
        ∀ s ∈ choices, 2 ≤ s.size) ∧
      (∀ t, .singleton t ∈ a.missingSets → t ∈ a.effective ∧ t ∉ a.normalized ∧
        ∀ x ∈ a.normalized, t ∉ e.ancestors x) ∧
      (∀ s : TagSet, 2 ≤ s.size → (s ∈ a.missingSets ↔ ∃ r ∈ e.rulesOf .implication,
        (∀ t ∈ r.left, t ∈ a.effective) ∧ (¬∀ t ∈ r.right, t ∈ a.effective) ∧ r.right = s)) ∧
      ∀ t, t ∈ a.effective ↔ ∃ x, (x ∈ a.normalized ∨ .singleton x ∈ a.missingSets) ∧
        (t = x ∨ t ∈ e.ancestors x) := by
  have he := consistent_of_ofRules h
  obtain ⟨ones, choices, hall, hones, hnodup, hchoices, hmem⟩ :=
    close_records he (e.startOf (e.normalize raw))
  have hsaturated := (isLeast_analyze_effective he raw).1.2
  rw [← analyze_effective he] at hones hmem
  rw [← analyze_missingSets he] at hall hnodup hmem
  have hsingleton (t : String) :
      .singleton t ∈ (e.analyze raw).missingSets ↔ .singleton t ∈ ones := by
    rw [hall, List.mem_append]
    exact or_iff_left fun ht => absurd (hchoices _ ht) (by simp)
  refine ⟨analyze_normalized e raw, hnodup, ⟨ones, choices, hall, fun s hs => ?_, hchoices⟩,
    fun t ht => ?_, fun s hs => ?_, fun t => ?_⟩
  · obtain ⟨t, rfl, -⟩ := hones.single s hs
    exact TagSet.size_singleton t
  · obtain ⟨u, hu, heffective, hstart⟩ := hones.single _ ((hsingleton t).1 ht)
    obtain rfl := TagSet.singleton_inj.1 hu
    rw [mem_startOf, ← analyze_normalized] at hstart
    push Not at hstart
    exact ⟨heffective, fun ht => (hstart t ht).1 rfl, fun x hx => (hstart x hx).2⟩
  · rw [hmem]
    refine or_iff_right fun hs' => ?_
    obtain ⟨t, rfl, -⟩ := hones.single s hs'
    contradiction
  · rw [hones.mem_iff hsaturated.ancestors, analyze_normalized]
    simp only [hsingleton]

/-- A choice that comes before a rule with one tag is recorded behind the tag of that rule, and what
is above this tag is no missing set. -/
theorem missingSets_complete_person :
    let rules : List TagRule :=
      [⟨.singleton "person", .implication, .ofList ["man", "woman"]⟩,
        ⟨.singleton "person", .implication, .singleton "human"⟩,
        ⟨.singleton "person", .implication, .singleton "primate"⟩,
        ⟨.singleton "human", .specialization, .singleton "primate"⟩]
    let e := construct rules []
    let a := e.analyze ["person"]
    ofRules rules [] = .ok e ∧ a.normalized = .singleton "person" ∧
      a.missingSets = [.singleton "human", .ofList ["man", "woman"]] ∧
      (∀ t, .singleton t ∈ a.missingSets → t ∈ a.effective ∧ t ∉ a.normalized ∧
        ∀ x ∈ a.normalized, t ∉ e.ancestors x) ∧
      ∀ t, t ∈ a.effective ↔ ∃ x, (x ∈ a.normalized ∨ .singleton x ∈ a.missingSets) ∧
        (t = x ∨ t ∈ e.ancestors x) := by
  intro rules e a
  have hrules : ofRules rules [] = .ok e := rfl
  obtain ⟨hnormalized, -, -, hsingle, -, heffective⟩ := missingSets_complete hrules ["person"]
  have hperson : e.normalize ["person"] = .singleton "person" := by decide +kernel
  exact ⟨hrules, hnormalized.trans hperson, by decide +kernel, hsingle, heffective⟩

end Engine
end TagQuery
