import DurableAgent.Research.Service

/-!
# Corroboration of research

What a service has kept is one source for each normalized content. So the sources of a result
stand for the contents that were found, whatever was ingested before, and the facts and conflicts
are about what distinct contents assert.
-/

namespace DurableAgent.Research

open Library

namespace ResearchContext

variable {σ : Type} {R : ResearchContext σ} {service service' : ResearchService σ}
  {item : ProviderItem} {items : List ProviderItem} {source : ResearchSource}
  {sources : List ResearchSource}

/-! ## What a service keeps -/

/-- A source is kept under the digest of its content, with an identifier of its own. -/
structure Keeps (R : ResearchContext σ) (service : ResearchService σ) : Prop where
  digest : ∀ digest source, (digest, source) ∈ service.sourcesByHash.entries →
    digest = R.sha256Digest source.normalizedContent
  distinct : ∀ digest source digest' source', (digest, source) ∈ service.sourcesByHash.entries →
    (digest', source') ∈ service.sourcesByHash.entries → source.sourceId = source'.sourceId →
      digest = digest'
  issued : ∀ digest source, (digest, source) ∈ service.sourcesByHash.entries →
    source.sourceId ∈ R.identifiers.issued service.ids "source"

theorem mem_issued_new {ids : σ} {kind other id : String}
    (h : id ∈ R.identifiers.issued ids other) :
    id ∈ R.identifiers.issued (R.identifiers.new ids kind).2 other := by
  rw [R.identifiers.issued_new]
  by_cases hkind : other = kind
  · rw [if_pos hkind, ← hkind]
    exact Set.mem_insert_of_mem _ h
  · rwa [if_neg hkind]

/-- The identifiers given out stay given out. -/
def After (R : ResearchContext σ) (ids later : σ) : Prop :=
  ∀ kind, R.identifiers.issued ids kind ⊆ R.identifiers.issued later kind

theorem After.refl (ids : σ) : R.After ids ids := fun _ _ h => h

theorem After.new {ids later : σ} (h : R.After ids later) (kind : String) :
    R.After ids (R.identifiers.new later kind).2 := fun other _ hid => mem_issued_new (h other hid)

theorem factsOf_after (ids : σ) (groups : List ((String × String) × List String)) :
    R.After ids (R.factsOf ids groups).2 := by
  induction groups generalizing ids with
  | nil => exact After.refl ids
  | cons group groups ih =>
    exact fun kind id hid => ih _ kind (mem_issued_new hid)

theorem conflictsOf_after (ids : σ) (keys : List (String × Dict String (List String))) :
    R.After ids (R.conflictsOf ids keys).2 := by
  induction keys generalizing ids with
  | nil => exact After.refl ids
  | cons key keys ih =>
    exact fun kind id hid => ih _ kind (mem_issued_new hid)

theorem Keeps.after (h : R.Keeps service) {later : σ} (hlater : R.After service.ids later) :
    R.Keeps { service with ids := later } where
  digest := h.digest
  distinct := h.distinct
  issued digest source hmem := hlater "source" (h.issued digest source hmem)

/-- What is made of a result has its content and the identifier drawn for it. -/
theorem sourceOf_ok {sourceId : String} {retrievedAt : Timestamp}
    (h : R.sourceOf item sourceId retrievedAt = .ok source) :
    source.sourceId = sourceId ∧ source.normalizedContent = R.normalizedOf item := by
  obtain ⟨url, -, h⟩ := of_bind_ok h
  unfold ResearchSource.validated at h
  dsimp only at h
  split at h
  · cases h
  · obtain rfl := Except.ok.inj h
    exact ⟨rfl, rfl⟩

/-- What a result that is ingested may do to a service. -/
inductive Ingests (R : ResearchContext σ) (service : ResearchService σ) (item : ProviderItem) :
    Except Exn ResearchSource → ResearchService σ → Prop where
  | known (existing : ResearchSource)
      (h : (R.sha256Digest (R.normalizedOf item), existing) ∈ service.sourcesByHash.entries) :
      Ingests R service item (.ok existing) service
  | refused (e : Exn) :
      Ingests R service item (.error e)
        { service with ids := (R.identifiers.new service.ids "source").2 }
  | made (source : ResearchSource)
      (hnew : ∀ source, (R.sha256Digest (R.normalizedOf item), source) ∉
        service.sourcesByHash.entries)
      (hid : source.sourceId = (R.identifiers.new service.ids "source").1)
      (hcontent : source.normalizedContent = R.normalizedOf item) :
      Ingests R service item (.ok source) ⟨(R.identifiers.new service.ids "source").2,
        service.sourcesByHash.set (R.sha256Digest (R.normalizedOf item)) source⟩

theorem ingest_cases (R : ResearchContext σ) (service : ResearchService σ) (item : ProviderItem) :
    R.Ingests service item (R.ingest service item).1 (R.ingest service item).2 := by
  unfold ingest
  dsimp only
  split
  · next existing hget => exact .known existing (Dict.get_eq_some.mp hget)
  · next hget =>
    split
    · next e _ => exact .refused e
    · next source hsource =>
      obtain ⟨hid, hcontent⟩ := sourceOf_ok hsource
      apply Ingests.made source _ hid hcontent
      intro other hmem
      rw [Dict.get_eq_some.mpr hmem] at hget
      cases hget

theorem Ingests.keeps {result : Except Exn ResearchSource}
    (h : R.Ingests service item result service') (hkeeps : R.Keeps service) :
    R.Keeps service' := by
  cases h with
  | known existing _ => exact hkeeps
  | refused e => exact hkeeps.after ((After.refl _).new _)
  | made source hnew hid hcontent =>
    have hfresh : source.sourceId ∉ R.identifiers.issued service.ids "source" := by
      rw [hid]
      exact R.identifiers.fresh _ _
    constructor
    · intro digest kept hmem
      rcases Dict.mem_set.mp hmem with ⟨rfl, rfl⟩ | ⟨-, hmem⟩
      · rw [hcontent]
      · exact hkeeps.digest digest kept hmem
    · intro digest kept digest' kept' hmem hmem' hsame
      rcases Dict.mem_set.mp hmem with ⟨rfl, rfl⟩ | ⟨-, hold⟩
      · rcases Dict.mem_set.mp hmem' with ⟨rfl, rfl⟩ | ⟨-, hold'⟩
        · rfl
        · rw [hsame] at hfresh
          exact absurd (hkeeps.issued _ _ hold') hfresh
      · rcases Dict.mem_set.mp hmem' with ⟨rfl, rfl⟩ | ⟨-, hold'⟩
        · rw [← hsame] at hfresh
          exact absurd (hkeeps.issued _ _ hold) hfresh
        · exact hkeeps.distinct _ _ _ _ hold hold' hsame
    · intro digest kept hmem
      rcases Dict.mem_set.mp hmem with ⟨rfl, rfl⟩ | ⟨-, hmem⟩
      · change kept.sourceId ∈ R.identifiers.issued (R.identifiers.new service.ids "source").2 _
        rw [R.identifiers.issued_new, if_pos rfl, hid]
        exact Set.mem_insert _ _
      · exact mem_issued_new (hkeeps.issued _ _ hmem)

/-- What was kept stays, and what is kept besides has the content of the result. -/
theorem Ingests.entries {result : Except Exn ResearchSource}
    (h : R.Ingests service item result service') {digest : String} {kept : ResearchSource} :
    ((digest, kept) ∈ service.sourcesByHash.entries →
      (digest, kept) ∈ service'.sourcesByHash.entries) ∧
    ((digest, kept) ∈ service'.sourcesByHash.entries →
      (digest, kept) ∈ service.sourcesByHash.entries ∨
        kept.normalizedContent = R.normalizedOf item) := by
  cases h with
  | known existing _ => exact ⟨id, .inl⟩
  | refused e => exact ⟨id, .inl⟩
  | made source hnew hid hcontent =>
    constructor
    · intro hmem
      refine Dict.mem_set.mpr (.inr ⟨?_, hmem⟩)
      rintro rfl
      exact hnew kept hmem
    · intro hmem
      rcases Dict.mem_set.mp hmem with ⟨-, rfl⟩ | ⟨-, hmem⟩
      · exact .inr hcontent
      · exact .inl hmem

theorem Ingests.kept (h : R.Ingests service item (.ok source) service') :
    (R.sha256Digest (R.normalizedOf item), source) ∈ service'.sourcesByHash.entries := by
  cases h with
  | known existing hmem => exact hmem
  | made source _ _ _ => exact Dict.mem_set.mpr (.inl ⟨rfl, rfl⟩)

/-- What results that are ingested in turn may do to a service. -/
structure IngestsAll (R : ResearchContext σ) (service : ResearchService σ)
    (items : List ProviderItem) (result : Except Exn (List ResearchSource))
    (service' : ResearchService σ) : Prop where
  keeps : R.Keeps service → R.Keeps service'
  stays : ∀ entry ∈ service.sourcesByHash.entries, entry ∈ service'.sourcesByHash.entries
  content : ∀ entry ∈ service'.sourcesByHash.entries,
    entry ∈ service.sourcesByHash.entries ∨
      ∃ item ∈ items, entry.2.normalizedContent = R.normalizedOf item
  found : ∀ sources, result = .ok sources → ∀ item ∈ items, ∃ source ∈ sources,
    (R.sha256Digest (R.normalizedOf item), source) ∈ service'.sourcesByHash.entries
  sources : ∀ sources, result = .ok sources → ∀ source ∈ sources, ∃ item ∈ items,
    (R.sha256Digest (R.normalizedOf item), source) ∈ service'.sourcesByHash.entries

theorem ingestAll_spec (R : ResearchContext σ) (service : ResearchService σ)
    (items : List ProviderItem) :
    R.IngestsAll service items (R.ingestAll service items).1 (R.ingestAll service items).2 := by
  induction items generalizing service with
  | nil =>
    refine ⟨id, fun entry h => h, fun entry h => .inl h, ?_, ?_⟩
    · intro sources _ item hitem
      cases hitem
    · intro sources h source hsource
      obtain rfl := Except.ok.inj h
      cases hsource
  | cons item items ih =>
    have hitem := R.ingest_cases service item
    rw [ingestAll]
    generalize R.ingest service item = outcome at hitem
    obtain ⟨result, service₁⟩ := outcome
    cases result with
    | error e =>
      refine ⟨hitem.keeps, fun entry h => hitem.entries.1 h, fun entry h => ?_,
        fun _ h => (by cases h), fun _ h => (by cases h)⟩
      exact (hitem.entries.2 h).imp id fun hcontent => ⟨item, List.mem_cons_self, hcontent⟩
    | ok source =>
      have hitems := ih service₁
      have hsources {sources : List ResearchSource}
          (h : (R.ingestAll service₁ items).1.map (source :: ·) = .ok sources) :
          ∃ rest, (R.ingestAll service₁ items).1 = .ok rest ∧ sources = source :: rest := by
        cases hrest : (R.ingestAll service₁ items).1 with
        | error e =>
          rw [hrest] at h
          cases h
        | ok rest =>
          rw [hrest] at h
          exact ⟨rest, rfl, (Except.ok.inj h).symm⟩
      refine ⟨hitems.keeps ∘ hitem.keeps, ?_, ?_, ?_, ?_⟩
      · exact fun entry h => hitems.stays entry (hitem.entries.1 h)
      · intro entry h
        rcases hitems.content entry h with hmem | ⟨other, hother, hcontent⟩
        · exact (hitem.entries.2 hmem).imp id fun hcontent => ⟨item, List.mem_cons_self, hcontent⟩
        · exact .inr ⟨other, List.mem_cons_of_mem item hother, hcontent⟩
      · intro sources h other hother
        obtain ⟨rest, hrest, rfl⟩ := hsources h
        obtain rfl | hother := List.mem_cons.mp hother
        · exact ⟨source, List.mem_cons_self, hitems.stays _ hitem.kept⟩
        · obtain ⟨found, hfound, hmem⟩ := hitems.found rest hrest other hother
          exact ⟨found, List.mem_cons_of_mem source hfound, hmem⟩
      · intro sources h found hfound
        obtain ⟨rest, hrest, rfl⟩ := hsources h
        obtain rfl | hfound := List.mem_cons.mp hfound
        · exact ⟨item, List.mem_cons_self, hitems.stays _ hitem.kept⟩
        · obtain ⟨other, hother, hmem⟩ := hitems.sources rest hrest found hfound
          exact ⟨other, List.mem_cons_of_mem item hother, hmem⟩

theorem research_keeps (h : R.Keeps service) (items : List ProviderItem) :
    R.Keeps (R.research service items).2 := by
  have hspec := R.ingestAll_spec service items
  unfold research
  generalize R.ingestAll service items = outcome at hspec
  obtain ⟨result, service₁⟩ := outcome
  cases result with
  | error e => exact hspec.keeps h
  | ok sources =>
    apply (hspec.keeps h).after
    intro kind id hid
    exact conflictsOf_after _ _ kind (factsOf_after _ _ kind hid)

/-- Every state of a service keeps one source for each content. -/
theorem Reachable.keeps (h : R.Reachable service) : R.Keeps service := by
  induction h with
  | new ids =>
    exact ⟨fun _ _ h => (by cases h), fun _ _ _ _ h => (by cases h), fun _ _ h => (by cases h)⟩
  | draw kind _ ih => exact ih.after ((After.refl _).new kind)
  | @ingest service item _ ih => exact (R.ingest_cases service item).keeps ih
  | research items _ ih => exact research_keeps ih items

/-! ## The sources of a result -/

/-- The contents that a service has and those of some results have distinct digests. -/
def NoCollision (R : ResearchContext σ) (service : ResearchService σ)
    (items : List ProviderItem) : Prop :=
  Set.InjOn R.sha256Digest fun content =>
    (∃ source ∈ service.sourcesByHash.values, source.normalizedContent = content) ∨
      ∃ item ∈ items, R.normalizedOf item = content

/-- The sources of a result: one for each content of the items. -/
structure Represents (R : ResearchContext σ) (items : List ProviderItem)
    (sources : List ResearchSource) : Prop where
  contents : ∀ content, (∃ source ∈ sources, source.normalizedContent = content) ↔
    ∃ item ∈ items, R.normalizedOf item = content
  ids : (sources.map ResearchSource.sourceId).Nodup
  distinct : (sources.map ResearchSource.normalizedContent).Nodup

/-- The sources of kept entries, each once: what has one identifier has one content. -/
theorem mem_unique (hkeeps : R.Keeps service) (hkept : ∀ source ∈ sources, ∃ digest,
      (digest, source) ∈ service.sourcesByHash.entries) :
    source ∈ (Dict.ofPairs (sources.map fun source => (source.sourceId, source))).values ↔
      source ∈ sources := by
  have hpairs : ∀ p ∈ sources.map (fun source => (source.sourceId, source)),
      ∀ q ∈ sources.map (fun source => (source.sourceId, source)), p.1 = q.1 → p = q := by
    intro p hp q hq hsame
    obtain ⟨s, hs, rfl⟩ := List.mem_map.mp hp
    obtain ⟨s', hs', rfl⟩ := List.mem_map.mp hq
    obtain ⟨digest, hentry⟩ := hkept s hs
    obtain ⟨digest', hentry'⟩ := hkept s' hs'
    obtain rfl := hkeeps.distinct _ _ _ _ hentry hentry' hsame
    rw [service.sourcesByHash.value_unique hentry hentry']
  unfold Dict.values
  simp only [List.mem_map, Dict.mem_ofPairs hpairs]
  constructor
  · rintro ⟨entry, ⟨s, hs, rfl⟩, rfl⟩
    exact hs
  · intro hs
    exact ⟨_, ⟨source, hs, rfl⟩, rfl⟩

theorem nodup_sourceId_unique (sources : List ResearchSource) :
    ((Dict.ofPairs (sources.map fun source => (source.sourceId, source))).values.map
      ResearchSource.sourceId).Nodup := by
  have hkeys := (Dict.ofPairs (sources.map fun source => (source.sourceId, source))).nodup_keys
  unfold Dict.values
  rw [List.map_map]
  have hmap : (Dict.ofPairs (sources.map fun source => (source.sourceId, source))).entries.map
      (ResearchSource.sourceId ∘ Prod.snd) =
      (Dict.ofPairs (sources.map fun source => (source.sourceId, source))).entries.map
        Prod.fst := by
    apply List.map_congr_left
    intro entry hentry
    obtain ⟨source, -, rfl⟩ := List.mem_map.mp (Dict.of_mem_ofPairs hentry)
    rfl
  rwa [hmap]

/-- The results that are ingested are represented, each content by one source. -/
theorem represents_unique {result : Except Exn (List ResearchSource)}
    (hspec : R.IngestsAll service items result service') (hkeeps : R.Keeps service)
    (hcollision : R.NoCollision service items) (hresult : result = .ok sources) :
    R.Represents items
      (Dict.ofPairs (sources.map fun source => (source.sourceId, source))).values := by
  have hkeeps' := hspec.keeps hkeeps
  have hcontent {item : ProviderItem} {source : ResearchSource} (hitem : item ∈ items)
      (hmem : (R.sha256Digest (R.normalizedOf item), source) ∈ service'.sourcesByHash.entries) :
      source.normalizedContent = R.normalizedOf item := by
    apply hcollision _ (.inr ⟨item, hitem, rfl⟩) (hkeeps'.digest _ _ hmem).symm
    rcases hspec.content _ hmem with hold | ⟨other, hother, hsame⟩
    · exact .inl ⟨source, List.mem_map_of_mem hold, rfl⟩
    · exact .inr ⟨other, hother, hsame.symm⟩
  have hkept : ∀ source ∈ sources, ∃ digest,
      (digest, source) ∈ service'.sourcesByHash.entries := by
    intro source hsource
    obtain ⟨item, -, hmem⟩ := hspec.sources sources hresult source hsource
    exact ⟨_, hmem⟩
  refine ⟨fun content => ⟨?_, ?_⟩, nodup_sourceId_unique sources, ?_⟩
  · rintro ⟨source, hsource, rfl⟩
    obtain ⟨item, hitem, hmem⟩ :=
      hspec.sources sources hresult source ((mem_unique hkeeps' hkept).mp hsource)
    exact ⟨item, hitem, (hcontent hitem hmem).symm⟩
  · rintro ⟨item, hitem, rfl⟩
    obtain ⟨source, hsource, hmem⟩ := hspec.found sources hresult item hitem
    exact ⟨source, (mem_unique hkeeps' hkept).mpr hsource, hcontent hitem hmem⟩
  · apply (List.Nodup.of_map _ (nodup_sourceId_unique sources)).map_on
    intro source hsource source' hsource' hsame
    obtain ⟨digest, hentry⟩ := hkept source ((mem_unique hkeeps' hkept).mp hsource)
    obtain ⟨digest', hentry'⟩ := hkept source' ((mem_unique hkeeps' hkept).mp hsource')
    have hdigest : digest = digest' := by
      rw [hkeeps'.digest _ _ hentry, hkeeps'.digest _ _ hentry', hsame]
    rw [← hdigest] at hentry'
    exact service'.sourcesByHash.value_unique hentry hentry'

/-! ## Facts -/

/-- A source asserts a key with a value. -/
def Asserts (R : ResearchContext σ) (source : ResearchSource) (key value : String) : Prop :=
  (key, value) ∈ R.assertions source.normalizedContent

theorem mem_assertedBy {key value sourceId : String} :
    ((key, value), sourceId) ∈ R.assertedBy sources ↔
      ∃ source ∈ sources, source.sourceId = sourceId ∧ R.Asserts source key value := by
  unfold assertedBy Asserts
  rw [List.mem_flatMap]
  constructor
  · rintro ⟨source, hsource, hclaim⟩
    obtain ⟨claim, hmem, heq⟩ := List.mem_map.mp hclaim
    obtain ⟨rfl, rfl⟩ := Prod.mk.inj heq
    exact ⟨source, hsource, rfl, hmem⟩
  · rintro ⟨source, hsource, rfl, hmem⟩
    exact ⟨source, hsource, List.mem_map_of_mem hmem⟩

/-- A fact names exactly the sources that assert its key with its value. -/
structure States (R : ResearchContext σ) (sources : List ResearchSource) (fact : ResearchFact) :
    Prop where
  nodup : fact.sourceIds.Nodup
  mem_sourceIds : ∀ sourceId, sourceId ∈ fact.sourceIds ↔
    ∃ source ∈ sources, source.sourceId = sourceId ∧ R.Asserts source fact.key fact.value

theorem factsOf_map (ids : σ) (groups : List ((String × String) × List String)) :
    ((R.factsOf ids groups).1.map fun fact => ((fact.key, fact.value), fact.sourceIds)) =
      groups.map fun group => (group.1, sortOn (fun id => id) group.2.dedup) := by
  induction groups generalizing ids with
  | nil => rfl
  | cons group groups ih =>
    rw [factsOf, List.map_cons, List.map_cons]
    exact congrArg _ (ih _)

theorem mem_extractFacts {ids : σ} {fact : ResearchFact}
    (h : fact ∈ (R.extractFacts ids sources).1) : R.States sources fact ∧
      ∃ source ∈ sources, R.Asserts source fact.key fact.value := by
  have hmem := List.mem_map_of_mem (f := fun fact : ResearchFact =>
    ((fact.key, fact.value), fact.sourceIds)) h
  unfold extractFacts at hmem
  rw [factsOf_map] at hmem
  obtain ⟨⟨⟨key, value⟩, group⟩, hgroup, heq⟩ := List.mem_map.mp hmem
  obtain ⟨hclaim, hids⟩ := Prod.mk.inj heq
  obtain ⟨hkey, hvalue⟩ := Prod.mk.inj hclaim
  obtain ⟨⟨sourceId, hasserted⟩, hall⟩ := Dict.mem_group.mp ((sortOn_perm _ _).mem_iff.mp hgroup)
  dsimp only at hkey hvalue hids hasserted hall
  rw [hkey, hvalue] at hasserted hall
  constructor
  · constructor
    · rw [← hids]
      exact (sortOn_perm _ _).nodup_iff.mpr (List.nodup_dedup _)
    · intro sourceId
      rw [← hids, (sortOn_perm _ _).mem_iff, List.mem_dedup, hall, Dict.mem_valuesUnder,
        mem_assertedBy]
  · obtain ⟨source, hsource, -, hasserts⟩ := mem_assertedBy.mp hasserted
    exact ⟨source, hsource, hasserts⟩

/-- Nothing that is asserted is lost. -/
theorem exists_fact {ids : σ} {key value : String} (hsource : source ∈ sources)
    (h : R.Asserts source key value) :
    ∃ fact ∈ (R.extractFacts ids sources).1, fact.key = key ∧ fact.value = value := by
  have hgroup : ((key, value), Dict.valuesUnder (R.assertedBy sources) (key, value)) ∈
      (Dict.group (R.assertedBy sources)).entries :=
    Dict.mem_group.mpr ⟨⟨source.sourceId, mem_assertedBy.mpr ⟨source, hsource, rfl, h⟩⟩, rfl⟩
  have hmem : ((key, value), sortOn (fun id => id)
      (Dict.valuesUnder (R.assertedBy sources) (key, value)).dedup) ∈
        (R.extractFacts ids sources).1.map fun fact =>
          ((fact.key, fact.value), fact.sourceIds) := by
    unfold extractFacts
    rw [factsOf_map]
    exact List.mem_map_of_mem (f := fun group : (String × String) × List String =>
      (group.1, sortOn (fun id => id) group.2.dedup)) ((sortOn_perm _ _).mem_iff.mpr hgroup)
  obtain ⟨fact, hfact, heq⟩ := List.mem_map.mp hmem
  obtain ⟨hkey, hvalue⟩ := Prod.mk.inj (Prod.mk.inj heq).1
  exact ⟨fact, hfact, hkey, hvalue⟩

/-- A key with a value is one fact. -/
theorem nodup_extractFacts (ids : σ) (sources : List ResearchSource) :
    ((R.extractFacts ids sources).1.map fun fact => (fact.key, fact.value)).Nodup := by
  have hmap : ((R.extractFacts ids sources).1.map fun fact => (fact.key, fact.value)) =
      (sortOn (fun group => toLex group.1) (Dict.group (R.assertedBy sources)).entries).map
        Prod.fst := by
    have hboth := congrArg (List.map Prod.fst)
      (R.factsOf_map ids (sortOn (fun group => toLex group.1)
        (Dict.group (R.assertedBy sources)).entries))
    rw [List.map_map, List.map_map] at hboth
    exact hboth
  rw [hmap]
  exact ((sortOn_perm _ _).map Prod.fst).nodup_iff.mpr
    (Dict.group (R.assertedBy sources)).nodup_keys

/-! ## Conflicts -/

section Conflicts

variable {facts : List ResearchFact} {key value : String} {sourceIds : List String}
  {byValue : Dict String (List String)}

/-- Facts under one key and one value are one. -/
theorem fact_unique (hfacts : (facts.map fun fact => (fact.key, fact.value)).Nodup)
    {fact fact' : ResearchFact} (h : fact ∈ facts) (h' : fact' ∈ facts)
    (hkey : fact.key = fact'.key) (hvalue : fact.value = fact'.value) : fact = fact' :=
  List.inj_on_of_nodup_map hfacts h h' (Prod.ext hkey hvalue)

/-- Under a key stand its values, each with the sources of its fact. -/
theorem mem_valuesOf (hfacts : (facts.map fun fact => (fact.key, fact.value)).Nodup)
    (h : (key, byValue) ∈ (valuesOf facts).entries) :
    (value, sourceIds) ∈ byValue.entries ↔
      ∃ fact ∈ facts, fact.key = key ∧ fact.value = value ∧ fact.sourceIds = sourceIds := by
  have hget := Dict.get_eq_some.mpr h
  unfold valuesOf at hget
  rw [Dict.get_collect] at hget
  split at hget
  · obtain rfl := Option.some.inj hget
    have hunder {p : String × List String} :
        p ∈ Dict.valuesUnder (facts.map fun fact => (fact.key, (fact.value, fact.sourceIds))) key ↔
          ∃ fact ∈ facts, fact.key = key ∧ fact.value = p.1 ∧ fact.sourceIds = p.2 := by
      rw [Dict.mem_valuesUnder, List.mem_map]
      simp only [Prod.mk.injEq]
      constructor
      · rintro ⟨fact, hfact, rfl, rfl⟩
        exact ⟨fact, hfact, rfl, rfl, rfl⟩
      · rintro ⟨fact, hfact, rfl, hvalue, hids⟩
        exact ⟨fact, hfact, rfl, Prod.ext hvalue hids⟩
    change (value, sourceIds) ∈ (Dict.ofPairs _).entries ↔ _
    rw [Dict.mem_ofPairs, hunder]
    intro p hp q hq hsame
    obtain ⟨fact, hfact, hkey, hvalue, hids⟩ := hunder.mp hp
    obtain ⟨fact', hfact', hkey', hvalue', hids'⟩ := hunder.mp hq
    have hone := fact_unique hfacts hfact hfact' (hkey.trans hkey'.symm)
      (hvalue.trans (hsame.trans hvalue'.symm))
    rw [hone] at hids
    exact Prod.ext hsame (hids.symm.trans hids')
  · cases hget

theorem mem_keys_valuesOf : key ∈ (valuesOf facts).keys ↔ ∃ fact ∈ facts, fact.key = key := by
  unfold valuesOf
  rw [Dict.mem_keys_collect]
  simp only [List.mem_map, Prod.mk.injEq]
  constructor
  · rintro ⟨_, fact, hfact, hkey, -⟩
    exact ⟨fact, hfact, hkey⟩
  · rintro ⟨fact, hfact, hkey⟩
    exact ⟨_, fact, hfact, hkey, rfl⟩

/-- A key has several values just where two facts of it differ in their values. -/
theorem several_values_iff (hfacts : (facts.map fun fact => (fact.key, fact.value)).Nodup)
    (h : (key, byValue) ∈ (valuesOf facts).entries) :
    1 < byValue.entries.length ↔ ∃ fact ∈ facts, ∃ fact' ∈ facts, fact.key = key ∧
      fact'.key = key ∧ fact.value ≠ fact'.value := by
  have hkeys := one_lt_length_iff byValue.nodup_keys
  rw [List.length_map] at hkeys
  rw [hkeys]
  simp only [List.mem_map, Prod.exists, exists_and_right, exists_eq_right]
  constructor
  · rintro ⟨value, ⟨ids, hmem⟩, value', ⟨ids', hmem'⟩, hne⟩
    obtain ⟨fact, hfact, hkey, rfl, -⟩ := (mem_valuesOf hfacts h).mp hmem
    obtain ⟨fact', hfact', hkey', rfl, -⟩ := (mem_valuesOf hfacts h).mp hmem'
    exact ⟨fact, hfact, fact', hfact', hkey, hkey', hne⟩
  · rintro ⟨fact, hfact, fact', hfact', hkey, hkey', hne⟩
    exact ⟨fact.value, ⟨_, (mem_valuesOf hfacts h).mpr ⟨fact, hfact, hkey, rfl, rfl⟩⟩,
      fact'.value, ⟨_, (mem_valuesOf hfacts h).mpr ⟨fact', hfact', hkey', rfl, rfl⟩⟩, hne⟩

theorem conflictsOf_map (ids : σ) (keys : List (String × Dict String (List String))) :
    ((R.conflictsOf ids keys).1.map fun conflict => (conflict.key, conflict.values)) = keys := by
  induction keys generalizing ids with
  | nil => rfl
  | cons entry keys ih =>
    rw [conflictsOf, List.map_cons]
    exact congrArg _ (ih _)

/-- The conflicts are the entries with several values. -/
theorem mem_detectConflicts {ids : σ} :
    (key, byValue) ∈ ((R.detectConflicts ids facts).1.map fun conflict =>
      (conflict.key, conflict.values)) ↔
        (key, byValue) ∈ (valuesOf facts).entries ∧ 1 < byValue.entries.length := by
  unfold detectConflicts
  rw [conflictsOf_map, List.mem_filter, (sortOn_perm _ _).mem_iff, decide_eq_true_eq]

/-- A key is in conflict once. -/
theorem nodup_detectConflicts (ids : σ) (facts : List ResearchFact) :
    ((R.detectConflicts ids facts).1.map ResearchConflict.key).Nodup := by
  have hmap := congrArg (List.map Prod.fst) (R.conflictsOf_map ids
    ((sortOn Prod.fst (valuesOf facts).entries).filter fun entry => 1 < entry.2.entries.length))
  rw [List.map_map] at hmap
  have hkeys : ((sortOn Prod.fst (valuesOf facts).entries).map Prod.fst).Nodup :=
    ((sortOn_perm _ _).map Prod.fst).nodup_iff.mpr (valuesOf facts).nodup_keys
  change (((R.detectConflicts ids facts).1).map (Prod.fst ∘ fun conflict : ResearchConflict =>
    (conflict.key, conflict.values))).Nodup
  unfold detectConflicts
  rw [hmap]
  exact hkeys.sublist (List.filter_sublist.map Prod.fst)

/-- The keys in conflict are those of two facts that differ in their values. -/
theorem mem_conflictingKeys {ids : σ}
    (hfacts : (facts.map fun fact => (fact.key, fact.value)).Nodup) :
    key ∈ (R.detectConflicts ids facts).1.map ResearchConflict.key ↔
      ∃ fact ∈ facts, ∃ fact' ∈ facts, fact.key = key ∧ fact'.key = key ∧
        fact.value ≠ fact'.value := by
  constructor
  · intro h
    obtain ⟨conflict, hconflict, rfl⟩ := List.mem_map.mp h
    have hentry := mem_detectConflicts.mp (List.mem_map_of_mem (f := fun conflict =>
      (ResearchConflict.key conflict, conflict.values)) hconflict)
    exact (several_values_iff hfacts hentry.1).mp hentry.2
  · intro h
    obtain ⟨fact, hfact, fact', hfact', hkey, hkey', hne⟩ := h
    obtain ⟨byValue, hget⟩ := Dict.mem_keys.mp (mem_keys_valuesOf.mpr ⟨fact, hfact, hkey⟩)
    have hentry := Dict.get_eq_some.mp hget
    have hmem : (key, byValue) ∈ ((R.detectConflicts ids facts).1.map fun conflict =>
        (conflict.key, conflict.values)) := mem_detectConflicts.mpr ⟨hentry,
      (several_values_iff hfacts hentry).mpr ⟨fact, hfact, fact', hfact', hkey, hkey', hne⟩⟩
    obtain ⟨conflict, hconflict, heq⟩ := List.mem_map.mp hmem
    exact List.mem_map.mpr ⟨conflict, hconflict, (Prod.mk.inj heq).1⟩

end Conflicts

/-! ## Findings -/

/-- What findings say of the contents that were found. -/
structure Corroborates (R : ResearchContext σ) (items : List ProviderItem) (findings : Findings) :
    Prop where
  /-- The sources are the distinct normalized contents of the items. -/
  represents : R.Represents items findings.sources
  /-- What a source asserts is a fact, once, and a fact is asserted. -/
  asserted : ∀ key value, (∃ fact ∈ findings.facts, fact.key = key ∧ fact.value = value) ↔
    ∃ source ∈ findings.sources, R.Asserts source key value
  once : (findings.facts.map fun fact => (fact.key, fact.value)).Nodup
  /-- Two sources with distinct contents assert it, and none asserts another value. -/
  verified : ∀ fact ∈ findings.facts, fact.verified = true ↔
    (∃ source ∈ findings.sources, ∃ source' ∈ findings.sources,
      source.normalizedContent ≠ source'.normalizedContent ∧
        R.Asserts source fact.key fact.value ∧ R.Asserts source' fact.key fact.value) ∧
    ∀ source ∈ findings.sources, ∀ value, R.Asserts source fact.key value → value = fact.value
  /-- The keys in conflict are those asserted with more than one value. -/
  conflicting : ∀ key, (∃ conflict ∈ findings.conflicts, conflict.key = key) ↔
    ∃ source ∈ findings.sources, ∃ source' ∈ findings.sources, ∃ value value',
      value ≠ value' ∧ R.Asserts source key value ∧ R.Asserts source' key value'
  conflictsOnce : (findings.conflicts.map ResearchConflict.key).Nodup
  /-- A conflict lists every asserted value, each with exactly its sources. -/
  listed : ∀ conflict ∈ findings.conflicts,
    (∀ value, value ∈ conflict.values.keys ↔
      ∃ source ∈ findings.sources, R.Asserts source conflict.key value) ∧
    ∀ value sourceIds, (value, sourceIds) ∈ conflict.values.entries → sourceIds.Nodup ∧
      ∀ sourceId, sourceId ∈ sourceIds ↔ ∃ source ∈ findings.sources,
        source.sourceId = sourceId ∧ R.Asserts source conflict.key value

section Findings

variable {ids ids' : σ}

/-- A fact has several sources just where two contents assert it. -/
theorem several_sources_iff (hsources : R.Represents items sources) {fact : ResearchFact}
    (h : R.States sources fact) : 1 < fact.sourceIds.length ↔
      ∃ source ∈ sources, ∃ source' ∈ sources,
        source.normalizedContent ≠ source'.normalizedContent ∧
          R.Asserts source fact.key fact.value ∧ R.Asserts source' fact.key fact.value := by
  rw [one_lt_length_iff h.nodup]
  constructor
  · rintro ⟨sourceId, hmem, sourceId', hmem', hne⟩
    obtain ⟨source, hsource, rfl, hasserts⟩ := (h.mem_sourceIds _).mp hmem
    obtain ⟨source', hsource', rfl, hasserts'⟩ := (h.mem_sourceIds _).mp hmem'
    refine ⟨source, hsource, source', hsource', fun hsame => hne ?_, hasserts, hasserts'⟩
    rw [List.inj_on_of_nodup_map hsources.distinct hsource hsource' hsame]
  · rintro ⟨source, hsource, source', hsource', hne, hasserts, hasserts'⟩
    refine ⟨source.sourceId, (h.mem_sourceIds _).mpr ⟨source, hsource, rfl, hasserts⟩,
      source'.sourceId, (h.mem_sourceIds _).mpr ⟨source', hsource', rfl, hasserts'⟩,
      fun hsame => hne ?_⟩
    rw [List.inj_on_of_nodup_map hsources.ids hsource hsource' hsame]

/-- The facts of a key differ in their values just where the key is asserted with several. -/
theorem facts_differ_iff {key : String} :
    (∃ fact ∈ (R.extractFacts ids sources).1, ∃ fact' ∈ (R.extractFacts ids sources).1,
      fact.key = key ∧ fact'.key = key ∧ fact.value ≠ fact'.value) ↔
    ∃ source ∈ sources, ∃ source' ∈ sources, ∃ value value', value ≠ value' ∧
      R.Asserts source key value ∧ R.Asserts source' key value' := by
  constructor
  · rintro ⟨fact, hfact, fact', hfact', rfl, hkey', hne⟩
    obtain ⟨-, source, hsource, hasserts⟩ := mem_extractFacts hfact
    obtain ⟨-, source', hsource', hasserts'⟩ := mem_extractFacts hfact'
    rw [hkey'] at hasserts'
    exact ⟨source, hsource, source', hsource', _, _, hne, hasserts, hasserts'⟩
  · rintro ⟨source, hsource, source', hsource', value, value', hne, hasserts, hasserts'⟩
    obtain ⟨fact, hfact, hkey, rfl⟩ := exists_fact hsource hasserts
    obtain ⟨fact', hfact', hkey', rfl⟩ := exists_fact hsource' hasserts'
    exact ⟨fact, hfact, fact', hfact', hkey, hkey', hne⟩

/-- What is made of sources that represent the items. -/
theorem corroborates_of_represents (hsources : R.Represents items sources) :
    R.Corroborates items ⟨sources,
      (R.extractFacts ids sources).1.map (verify
        ((R.detectConflicts ids' (R.extractFacts ids sources).1).1.map ResearchConflict.key)),
      (R.detectConflicts ids' (R.extractFacts ids sources).1).1⟩ := by
  have honce := nodup_extractFacts (R := R) ids sources
  have hasserted {key value : String} :
      (∃ fact ∈ (R.extractFacts ids sources).1, fact.key = key ∧ fact.value = value) ↔
        ∃ source ∈ sources, R.Asserts source key value := by
    constructor
    · rintro ⟨fact, hfact, rfl, rfl⟩
      exact (mem_extractFacts hfact).2
    · rintro ⟨source, hsource, h⟩
      exact exists_fact hsource h
  refine ⟨hsources, fun key value => ?_, ?_, fun fact hfact => ?_, fun key => ?_,
    nodup_detectConflicts _ _, fun conflict hconflict => ?_⟩
  · rw [← hasserted]
    simp [verify]
  · rw [List.map_map]
    exact honce
  · obtain ⟨fact, hextracted, rfl⟩ := List.mem_map.mp hfact
    change decide (1 < fact.sourceIds.length ∧ fact.key ∉ _) = true ↔ _
    rw [decide_eq_true_eq, several_sources_iff hsources (mem_extractFacts hextracted).1,
      mem_conflictingKeys honce, facts_differ_iff]
    refine and_congr_right fun hsome => ⟨fun hnone source hsource value hasserts => ?_, ?_⟩
    · obtain ⟨-, source', hsource', hasserts'⟩ := mem_extractFacts hextracted
      by_contra hne
      exact hnone ⟨source, hsource, source', hsource', value, fact.value, hne, hasserts, hasserts'⟩
    · rintro hall ⟨source, hsource, source', hsource', value, value', hne, hasserts, hasserts'⟩
      exact hne ((hall source hsource value hasserts).trans
        (hall source' hsource' value' hasserts').symm)
  · rw [← facts_differ_iff, ← mem_conflictingKeys honce, List.mem_map]
  · have hentry := (mem_detectConflicts.mp (List.mem_map_of_mem (f := fun conflict =>
      (ResearchConflict.key conflict, conflict.values)) hconflict)).1
    constructor
    · intro value
      rw [← hasserted]
      constructor
      · intro hvalue
        obtain ⟨sourceIds, hget⟩ := Dict.mem_keys.mp hvalue
        obtain ⟨fact, hfact, hkey, hsame, -⟩ :=
          (mem_valuesOf honce hentry).mp (Dict.get_eq_some.mp hget)
        exact ⟨fact, hfact, hkey, hsame⟩
      · rintro ⟨fact, hfact, hkey, hsame⟩
        exact Dict.mem_keys.mpr ⟨fact.sourceIds, Dict.get_eq_some.mpr
          ((mem_valuesOf honce hentry).mpr ⟨fact, hfact, hkey, hsame, rfl⟩)⟩
    · intro value sourceIds hmem
      obtain ⟨fact, hfact, hkey, rfl, rfl⟩ := (mem_valuesOf honce hentry).mp hmem
      have hstates := (mem_extractFacts hfact).1
      rw [← hkey]
      exact ⟨hstates.nodup, hstates.mem_sourceIds⟩

/-- The triples that findings come to. -/
def Triple (findings : Findings) (key value : String) (verified : Bool) : Prop :=
  ∃ fact ∈ findings.facts, fact.key = key ∧ fact.value = value ∧ fact.verified = verified

/-- A fact is verified for what the contents of the items assert, whatever the sources are. -/
theorem Corroborates.verified_iff {findings : Findings} (h : R.Corroborates items findings)
    {fact : ResearchFact} (hfact : fact ∈ findings.facts) : fact.verified = true ↔
      (∃ item ∈ items, ∃ item' ∈ items, R.normalizedOf item ≠ R.normalizedOf item' ∧
        (fact.key, fact.value) ∈ R.assertions (R.normalizedOf item) ∧
        (fact.key, fact.value) ∈ R.assertions (R.normalizedOf item')) ∧
      ∀ item ∈ items, ∀ value, (fact.key, value) ∈ R.assertions (R.normalizedOf item) →
        value = fact.value := by
  have hcontents := h.represents.contents
  rw [h.verified fact hfact]
  constructor
  · rintro ⟨⟨source, hsource, source', hsource', hne, hasserts, hasserts'⟩, hall⟩
    obtain ⟨item, hitem, hcontent⟩ := (hcontents _).mp ⟨source, hsource, rfl⟩
    obtain ⟨item', hitem', hcontent'⟩ := (hcontents _).mp ⟨source', hsource', rfl⟩
    rw [Asserts, ← hcontent] at hasserts
    rw [Asserts, ← hcontent'] at hasserts'
    rw [← hcontent, ← hcontent'] at hne
    refine ⟨⟨item, hitem, item', hitem', hne, hasserts, hasserts'⟩, fun other hother value hv => ?_⟩
    obtain ⟨found, hfound, hsame⟩ := (hcontents _).mpr ⟨other, hother, rfl⟩
    rw [← hsame] at hv
    exact hall found hfound value hv
  · rintro ⟨⟨item, hitem, item', hitem', hne, hasserts, hasserts'⟩, hall⟩
    obtain ⟨source, hsource, hcontent⟩ := (hcontents _).mpr ⟨item, hitem, rfl⟩
    obtain ⟨source', hsource', hcontent'⟩ := (hcontents _).mpr ⟨item', hitem', rfl⟩
    rw [← hcontent] at hasserts
    rw [← hcontent'] at hasserts'
    rw [← hcontent, ← hcontent'] at hne
    refine ⟨⟨source, hsource, source', hsource', hne, hasserts, hasserts'⟩,
      fun found hfound value hv => ?_⟩
    obtain ⟨other, hother, hsame⟩ := (hcontents _).mp ⟨found, hfound, rfl⟩
    rw [Asserts, ← hsame] at hv
    exact hall other hother value hv

/-- The triples are those of the items, in any order and any number. -/
theorem Corroborates.triple_of {findings findings' : Findings} {items' : List ProviderItem}
    (h : R.Corroborates items findings) (h' : R.Corroborates items' findings')
    (hsame : ∀ item, item ∈ items' ↔ item ∈ items) {key value : String} {verified : Bool}
    (htriple : Triple findings key value verified) : Triple findings' key value verified := by
  obtain ⟨fact, hfact, rfl, rfl, rfl⟩ := htriple
  obtain ⟨source, hsource, hasserts⟩ := (h.asserted _ _).mp ⟨fact, hfact, rfl, rfl⟩
  obtain ⟨item, hitem, hcontent⟩ := (h.represents.contents _).mp ⟨source, hsource, rfl⟩
  obtain ⟨source', hsource', hcontent'⟩ :=
    (h'.represents.contents _).mpr ⟨item, (hsame item).mpr hitem, hcontent⟩
  rw [Asserts, ← hcontent'] at hasserts
  obtain ⟨fact', hfact', hkey, hvalue⟩ := (h'.asserted _ _).mpr ⟨source', hsource', hasserts⟩
  refine ⟨fact', hfact', hkey, hvalue, ?_⟩
  rw [Bool.eq_iff_iff, h'.verified_iff hfact', h.verified_iff hfact, hkey, hvalue]
  simp only [hsame]

end Findings

/-- A result of which a source can be made, under any identifier. -/
def Acceptable (R : ResearchContext σ) (item : ProviderItem) : Prop :=
  ∀ sourceId retrievedAt, Repository.hasNul sourceId = false →
    ∃ source, R.sourceOf item sourceId retrievedAt = .ok source

theorem ingestAll_returns (h : ∀ item ∈ items, R.Acceptable item)
    (service : ResearchService σ) : ∃ sources, (R.ingestAll service items).1 = .ok sources := by
  induction items generalizing service with
  | nil => exact ⟨[], rfl⟩
  | cons item items ih =>
    have hitem : ∃ source, (R.ingest service item).1 = .ok source := by
      unfold ingest
      dsimp only
      split
      · exact ⟨_, rfl⟩
      · obtain ⟨source, hsource⟩ := h item List.mem_cons_self _
          (R.now (R.identifiers.new service.ids "source").2)
          (R.identifiers.hasNul_new service.ids "source" (by decide))
        rw [hsource]
        exact ⟨source, rfl⟩
    obtain ⟨source, hsource⟩ := hitem
    obtain ⟨rest, hrest⟩ := ih (fun other hother => h other (List.mem_cons_of_mem item hother))
      (R.ingest service item).2
    rw [ingestAll]
    generalize R.ingest service item = outcome at hsource hrest
    obtain ⟨result, service₁⟩ := outcome
    obtain rfl := hsource
    exact ⟨source :: rest, congrArg (Except.map (source :: ·)) hrest⟩

/-- Findings corroborate the items they were made of. -/
theorem corroborates_of_research {findings : Findings} (hreach : R.Reachable service)
    (hcollision : R.NoCollision service items)
    (h : (R.research service items).1 = .ok findings) : R.Corroborates items findings := by
  have hspec := R.ingestAll_spec service items
  unfold research at h
  generalize R.ingestAll service items = outcome at hspec h
  obtain ⟨result, service₁⟩ := outcome
  cases result with
  | error e => cases h
  | ok sources =>
    obtain rfl := Except.ok.inj h
    exact corroborates_of_represents (represents_unique hspec hreach.keeps hcollision rfl)

end ResearchContext

/-- In any state of a service, research on acceptable results returns. What it returns is verified
just where two distinct contents assert it and none asserts otherwise, its conflicts are the keys
with several values, and its triples are the same for the same results in any order and number. -/
theorem research_corroborates {σ : Type} (R : ResearchContext σ) {service : ResearchService σ}
    (hreach : R.Reachable service) {items : List ProviderItem}
    (hcollision : R.NoCollision service items) :
    ((∀ item ∈ items, R.Acceptable item) →
      ∃ findings, (R.research service items).1 = .ok findings) ∧
    ∀ findings, (R.research service items).1 = .ok findings →
      R.Corroborates items findings ∧
      ∀ service' items' findings', R.Reachable service' → R.NoCollision service' items' →
        (∀ item, item ∈ items' ↔ item ∈ items) →
        (R.research service' items').1 = .ok findings' →
        ∀ key value verified, ResearchContext.Triple findings' key value verified ↔
          ResearchContext.Triple findings key value verified := by
  refine ⟨fun h => ?_, fun findings h => ?_⟩
  · obtain ⟨sources, hsources⟩ := ResearchContext.ingestAll_returns h service
    unfold ResearchContext.research
    generalize R.ingestAll service items = outcome at hsources
    obtain ⟨result, service₁⟩ := outcome
    obtain rfl := hsources
    exact ⟨_, rfl⟩
  · have hfindings := ResearchContext.corroborates_of_research hreach hcollision h
    refine ⟨hfindings, ?_⟩
    intro service' items' findings' hreach' hcollision' hsame h' key value verified
    have hfindings' := ResearchContext.corroborates_of_research hreach' hcollision' h'
    constructor
    · exact hfindings'.triple_of hfindings fun item => (hsame item).symm
    · exact hfindings.triple_of hfindings' hsame

/-- Identifiers that count, in strokes, how many were given out for their kind. -/
def strokeId (kind : String) (n : Nat) : String :=
  kind ++ "-" ++ String.ofList (List.replicate n '1')

theorem strokeId_injective {kind : String} {m n : Nat} (h : strokeId kind m = strokeId kind n) :
    m = n := by
  have hlength := congrArg String.length h
  simp only [strokeId, String.length_append, String.length_ofList, List.length_replicate]
    at hlength
  omega

def strokeIdentifiers : IdentifierGenerator (String → Nat) where
  new counts kind :=
    (strokeId kind (counts kind), Function.update counts kind (counts kind + 1))
  issued counts kind := { id | ∃ n < counts kind, id = strokeId kind n }
  fresh counts kind := by
    rintro ⟨n, hn, h⟩
    have hsame := strokeId_injective h
    omega
  hasNul_new counts kind h := by
    simp only [Repository.hasNul, decide_eq_false_iff_not, strokeId, String.toList_append,
      String.toList_ofList, List.mem_append, List.mem_replicate] at *
    rintro ((hkind | hdash) | ⟨-, hstroke⟩)
    · exact h hkind
    · exact absurd hdash (by decide)
    · exact absurd hstroke (by decide)
  issued_new counts kind other := by
    by_cases hkind : other = kind
    · subst hkind
      ext id
      simp only [Function.update_self, Set.mem_ofPred_eq, if_true, Set.mem_insert_iff]
      constructor
      · rintro ⟨n, hn, rfl⟩
        rcases Nat.lt_succ_iff_lt_or_eq.mp hn with hlt | rfl
        · exact .inr ⟨n, hlt, rfl⟩
        · exact .inl rfl
      · rintro (rfl | ⟨n, hn, rfl⟩)
        · exact ⟨counts other, Nat.lt_succ_self _, rfl⟩
        · exact ⟨n, Nat.lt_succ_of_lt hn, rfl⟩
    · simp [hkind]

/-- A context for plain texts, whose digests are the texts themselves. -/
def plainContext : ResearchContext (String → Nat) where
  identifiers := strokeIdentifiers
  now _ := 0
  feed text := [.data text]
  unescape text := text
  lower := String.toLower
  repr text := "'" ++ text ++ "'"
  str
    | .text s => s
    | _ => ""
  sha256Digest text := text
  urlsplit _ := .error (.other "no URL")
  urlunsplit parts := parts.path
  httpUrl := .ok

def noteItem (source content : String) : ProviderItem where
  itemId := source
  sourceType := "fixture"
  source := source
  sourceLocation := "file"
  content := content
  contentHash := "a"
  score := 1
  metadata := Dict.empty

theorem acceptable_note {source content : String} (hsource : Repository.hasNul source = false)
    (hurl : plainContext.urlOf (noteItem source content) = .ok none)
    (hcontent : Repository.hasNul (plainContext.normalizedOf (noteItem source content)) = false) :
    plainContext.Acceptable (noteItem source content) := by
  intro sourceId retrievedAt hid
  have hstrings : [sourceId, source, plainContext.normalizedOf (noteItem source content),
      plainContext.normalizedOf (noteItem source content), "text/plain"].any
        Repository.hasNul = false := by
    have hmedia : Repository.hasNul "text/plain" = false := by decide
    simp [hid, hsource, hcontent, hmedia]
  unfold ResearchContext.sourceOf
  rw [hurl]
  exact ⟨_, if_neg (Bool.eq_false_iff.mp hstrings)⟩

/-- Two notes that agree and one that does not. -/
def notes : List ProviderItem :=
  [noteItem "a" "fact: n = 1", noteItem "b" "claim: n = 1", noteItem "c" "fact: n = 2"]

/-- A service that has seen nothing finds what the notes assert. -/
theorem research_corroborates_notes :
    (∃ findings, (plainContext.research ⟨fun _ => 0, Dict.empty⟩ notes).1 = .ok findings) ∧
    ∀ findings, (plainContext.research ⟨fun _ => 0, Dict.empty⟩ notes).1 = .ok findings →
      plainContext.Corroborates notes findings := by
  have hcollision : plainContext.NoCollision ⟨fun _ => 0, Dict.empty⟩ notes := Set.injOn_id _
  have h := research_corroborates plainContext (.new fun _ => 0) hcollision
  refine ⟨h.1 ?_, fun findings hfindings => (h.2 findings hfindings).1⟩
  intro item hitem
  simp only [notes, List.mem_cons, List.not_mem_nil, or_false] at hitem
  rcases hitem with rfl | rfl | rfl
  · exact acceptable_note (by decide) rfl (by decide +kernel)
  · exact acceptable_note (by decide) rfl (by decide +kernel)
  · exact acceptable_note (by decide) rfl (by decide +kernel)

end DurableAgent.Research
