import DurableAgent.Checkpoints.WriteThenRecover
import DurableAgent.Domain.Commitment

/-!
# The chain behind a recovered envelope

An envelope that recovery accepts stands at the head of an unbroken chain of retained envelopes
down to the trust anchor, whatever texts are stored between them.
-/

namespace DurableAgent.Checkpoints

open Library Library.Prog

variable {Text : Type} {codec : Codec Text} {sha256Digest : String → String}
  {s s' : CheckpointStore Text} {runId : String} {e : CheckpointEnvelope}

/-- A child names the digest of its parent. -/
def ChildOf (sha256Digest : String → String) (child parent : CheckpointEnvelope) : Prop :=
  child.parentHash = some (parent.chainHash sha256Digest)

/-- An unbroken chain of retained envelopes from an envelope down to the trust anchor: the
oldest retained row, or an envelope with sequence 1 and no parent. -/
structure TrustedChain (codec : Codec Text) (sha256Digest : String → String)
    (rows : List (CheckpointRow Text)) (runId : String) (e : CheckpointEnvelope)
    (chain : List CheckpointEnvelope) : Prop where
  head : chain.head? = some e
  retained : (chain.map some).Sublist (parsedRows codec rows runId)
  verified : ∀ c ∈ chain, c.verify sha256Digest = .ok ()
  decreasing : chain.Pairwise fun newer older => older.sequence < newer.sequence
  linked : chain.IsChain (ChildOf sha256Digest)
  anchored : ∃ anchor, chain.getLast? = some anchor ∧
    ((parsedRows codec rows runId).getLast? = some (some anchor) ∨
      (anchor.parentHash = none ∧ anchor.sequence = 1))

theorem Linked.verified {l : List CheckpointEnvelope} (hl : (lineage sha256Digest).Linked l) :
    ∀ c ∈ l, c.verify sha256Digest = .ok () := by
  induction l with
  | nil => simp
  | cons c l ih =>
    intro c' hc'
    rcases List.mem_cons.mp hc' with rfl | hc'
    · exact CheckpointEnvelope.verify_eq_ok.mpr (of_decide_eq_true hl.head_valid)
    · exact ih hl.tail c' hc'

theorem Linked.isChain {l : List CheckpointEnvelope} (hl : (lineage sha256Digest).Linked l) :
    l.IsChain fun newer older => ChildOf sha256Digest newer older ∧
      older.sequence < newer.sequence := by
  induction l with
  | nil => exact .nil
  | cons c l ih =>
    cases l with
    | nil => exact .singleton c
    | cons o rest => exact .cons_cons ⟨hl.2.1, hl.2.2.1⟩ (ih hl.tail)

/-- What is newest among the rows stands at the head of a trusted chain. -/
theorem trustedChain_of_newestOf {rows : List (CheckpointRow Text)}
    (h : newestOf codec sha256Digest rows runId = some e) :
    ∃ chain, TrustedChain codec sha256Digest rows runId e chain := by
  obtain ⟨newer, older, hwindow, hanchored, -⟩ := Lineage.newest_eq_some h
  obtain ⟨l, anchor, hlinked, hsub, hlast, hend⟩ := hanchored.chain
  have hchain := Linked.isChain hlinked
  have hdecreasing : (e :: l).IsChain fun newer older => older.sequence < newer.sequence :=
    hchain.imp fun _ _ h => h.2
  refine ⟨e :: l, rfl, ?_, Linked.verified hlinked, ?_, hchain.imp fun _ _ h => h.1,
    anchor, hlast, ?_⟩
  · rw [hwindow, List.map_cons]
    exact (hsub.cons_cons (some e)).trans (List.sublist_append_right newer _)
  · exact List.isChain_iff_pairwise.mp hdecreasing
  · rw [hwindow, List.getLast?_append]
    rcases hend with hend | hend
    · left
      rw [hend]
      rfl
    · exact .inr hend

/-- An envelope that recovery answers passes the checks of `verify` and heads a trusted chain.
Without colliding digests every linked ancestor holds the values that its child committed to. -/
theorem recoverLatest_chain (h : Runs (faulty codec sha256Digest)
    (recoverLatest codec sha256Digest runId) s (.ok e) s') :
    e.verify sha256Digest = .ok () ∧
      ∃ chain, TrustedChain codec sha256Digest s.rows runId e chain ∧
        (Function.Injective sha256Digest → chain.IsChain fun child ancestor =>
          ∀ committed, ChildOf sha256Digest child committed → SameEnvelope ancestor committed) := by
  have hnewest := (recoverLatest_wp.runs h).2 e rfl
  obtain ⟨chain, htrusted⟩ := trustedChain_of_newestOf hnewest
  have hmem : e ∈ chain := List.mem_of_mem_head? htrusted.head
  refine ⟨htrusted.verified e hmem, chain, htrusted, fun hinj => ?_⟩
  refine htrusted.linked.imp fun child ancestor hlink committed hcommitted => ?_
  have hhash : ancestor.chainHash sha256Digest = committed.chainHash sha256Digest := by
    rw [ChildOf, hlink] at hcommitted
    exact Option.some.inj hcommitted
  exact CheckpointEnvelope.same_of_chainHash hinj hhash

/-- After two writes recovery answers with the second envelope, which heads a trusted chain. -/
theorem recoverLatest_chain_second : ∃ (s : CheckpointStore StoredText) (e : _) (chain : _),
    TrustedChain documentCodec id s.rows "run" e chain ∧ chain.IsChain fun child ancestor =>
      ∀ committed, ChildOf id child committed → SameEnvelope ancestor committed := by
  obtain ⟨s₁, s, e₁, e, hrun₁, hrun, hvalid, hseq₁, hseq, hrows, -⟩ := sampleWrite_twice
  have hwritten : Written documentCodec id s₁ := .single (.write hrun₁)
  obtain ⟨s', hrecover⟩ := ((write_then_recover hwritten.reachable hrun).1
    (hwritten.tipKept "run")).1
  obtain ⟨-, chain, htrusted, hcommitted⟩ := recoverLatest_chain hrecover.withFaults
  exact ⟨s, e, chain, htrusted, hcommitted Function.injective_id⟩

end DurableAgent.Checkpoints
