import SpeechTransducer.Proofs.Search.Chunks

/-!
Where the paths of a beam search stand in the hotword graph. A path's node is that of a walk along
its tokens: it moves with every emission and with nothing else, and paths that are merged have the
same tokens, so that it does not matter which of them gives its node.
-/

namespace SpeechTransducer.Search.Beam

theorem index_inv {S : Type} {g : Hotword.Graph S} {i j : Nat} (h : g.index i = .ok j) : j = i := by
  have hnonneg : ¬(i : Int) < 0 := by omega
  simp only [Hotword.Graph.index, resolveEntry, if_neg hnonneg] at h
  split at h
  · cases h
  · split at h
    · exact (Except.ok.inj h).symm
    · cases h

variable {σ S : Type} [Zero S] [Add S] [Sub S] [BEq S]

/-- A path stands at the node that a walk along its tokens, without the blanks of the initial
context, ends in. -/
structure Located (net : Network σ S) (g : Hotword.Graph S) (h : Hypothesis S) : Prop where
  le : net.contextSize.toNat ≤ h.tokens.length
  contextState : h.contextState =
    some (g.arrive false (h.tokens.drop net.contextSize.toNat) : Int)

/-- A search whose paths all stand where their tokens lead. -/
def AllLocated (net : Network σ S) (g : Hotword.Graph S) (st : State S) : Prop :=
  ∃ hs, st.hyps = some hs ∧ ∀ h ∈ hs.entries, Located net g h

variable {net : Network σ S} {g : Hotword.Graph S}

theorem Located.extend {path h : Hypothesis S} {t token : Int} {score : S}
    (hpath : Located net g path) (hextend : extend (some g) t path token score = .ok h) :
    Located net g h := by
  obtain ⟨-, score', state, rfl, hstep⟩ | ⟨-, rfl⟩ := extend_inv hextend
  · obtain ⟨i, hindex, hstate⟩ := hstep g rfl _ hpath.contextState
    obtain rfl := index_inv hindex
    refine ⟨?_, ?_⟩
    · rw [List.length_append]
      exact Nat.le_add_right_of_le hpath.le
    · have hdrop : (path.tokens ++ [token]).drop net.contextSize.toNat =
          path.tokens.drop net.contextSize.toNat ++ [token] :=
        List.drop_append_of_le_length hpath.le
      rw [hdrop, Hotword.Graph.arrive_concat, hstate]
      rfl
  · exact ⟨hpath.le, hpath.contextState⟩

variable [LT S] [DecidableLT S] [LogScale S] {b : Settings} {s : Session σ S}

theorem Located.combine {rule : MergeRule} {old new : Hypothesis S}
    (hsame : old.tokens = new.tokens) (hold : Located net g old) (hnew : Located net g new) :
    Located net g (Hypotheses.combine rule old new) := by
  refine ⟨hold.le, ?_⟩
  simp only [Hypotheses.combine, Hypotheses.stronger]
  split
  · rw [hsame]
    exact hnew.contextState
  · exact hold.contextState

theorem decodeFrame_located {isFirst : Bool} {t : Int} {frame : List S}
    {paths : List (Hypothesis S)} (h : ∀ h ∈ paths, Located net g h) :
    Leaves (decodeFrame net b (some g) isFirst t frame paths) s
      (fun hs s' => (∀ h ∈ hs.entries, Located net g h) ∧ Consumed s.state s'.state)
      fun _ s' => True ∧ Consumed s.state s'.state := by
  refine (decodeFrame_consumed isFirst t frame paths).mono ?_ fun _ _ h => h
  rintro hs s' ⟨⟨logits, hfollowing⟩, hconsumed⟩
  obtain ⟨rows, -, hsuccessors⟩ := following_inv hfollowing
  refine ⟨forall_successors hsuccessors ?_ fun old new => Located.combine, hconsumed⟩
  intro path hpath c _ h' hextend
  exact (h path hpath).extend hextend

/-- A chunk leaves every path where its tokens lead, whether or not it goes through. -/
theorem decode_located (out : Argument S) (h : AllLocated net g s.state) :
    Leaves (decode net b (some g) out) s (fun _ s' => AllLocated net g s'.state)
      fun _ s' => AllLocated net g s'.state := by
  obtain ⟨hs, hhyps, hlocated⟩ := h
  cases hframes : encoderFrames out with
  | error e => exact .bind_answered (by simp [hframes]) fun _ _ => ⟨hs, hhyps, hlocated⟩
  | ok frames =>
      by_cases hnil : frames = []
      · subst hnil
        rw [Leaves, decode_empty hframes hhyps]
        exact ⟨hs, hhyps, hlocated⟩
      · have hrun : Leaves (decodeFrames net b (some g) true s.state.frameOffset frames hs) s
            (fun hs' s' => (∀ h ∈ hs'.entries, Located net g h) ∧ Consumed s.state s'.state)
            fun _ s' => True ∧ Consumed s.state s'.state :=
          decodeFrames_leaves (I := fun _ hs => ∀ h ∈ hs.entries, Located net g h)
            (fun _ _ h _ _ => h)
            (fun _ _ _ _ _ h _ => decodeFrame_located fun h' hh' => h h' (mem_of_mem_top hh'))
            hlocated
        refine (decode_leaves (R := fun _ _ => True) hframes hnil hhyps hrun
          fun _ _ _ _ _ => .trivial).mono ?_ ?_
        · rintro _ s' ⟨hs', hall, ⟨-, hstate⟩ | ⟨h, rows, -, -, hstate⟩⟩
          · exact ⟨hs, hstate, hlocated⟩
          · exact ⟨hs', by rw [hstate], hall⟩
        · rintro _ s' ⟨-, hstate | ⟨hs', hall, hstate⟩⟩
          · exact ⟨hs, hstate, hlocated⟩
          · exact ⟨hs', hstate, hall⟩

theorem located_start (bound : Hotword.Graph S) :
    AllLocated net g ((start net b).atRoot (some bound)) := by
  refine ⟨_, hyps_start (some bound), ?_⟩
  intro h hh
  obtain rfl := List.mem_singleton.mp hh
  have hlen : (List.replicate net.contextSize.toNat blankToken).length =
      net.contextSize.toNat := List.length_replicate
  refine ⟨hlen.ge, ?_⟩
  rw [List.drop_of_length_le hlen.le]
  rfl

end SpeechTransducer.Search.Beam
