import SpeechTransducer.Recognizer

/-!
A stream decoded as far as it goes, with an account of every window. An utterance that is over can
be closed on the way; its transcript then stands in the account, and the next one begins.
-/

namespace SpeechTransducer.Rehearsal

/-- An entry of the account. -/
inductive Entry (S : Type) where
  /-- A window: the frames passed, the tokens, the silence at the end, and whether that is the end
  of the utterance. -/
  | window (processed : Int) (tokens : List Int) (trailingBlanks : Int) (isOver : Bool)
  | utterance (transcript : Transcript S)

variable {σ S : Type}

/-- The entry of the window that a stream has just passed. -/
def Entry.of (st : Stream S) (isOver : Bool) : Entry S :=
  .window st.processed st.search.tokens st.search.trailingBlanks isOver

/-- The number of entries after which an account ends. -/
def fullAccount : Nat := 200

variable [Zero S] [Add S] [Sub S] [Neg S] [BEq S] [LT S] [DecidableLT S] [LE S] [DecidableLE S]
variable [LogScale S] [Countable S] [HMul Int S S]

/-- Decodes a stream as far as it goes, after some entries and with at most so many windows more. -/
def drain (r : Recognizer σ S) (closes : Bool) :
    Nat → List (Entry S) → EStateM Fault (Session σ S) (List (Entry S))
  | 0, account => pure account
  | windows + 1, account => fun s =>
    if !r.isReady s.stream || fullAccount ≤ account.length then .ok account s
    else
      match r.decode s with
      | .error f s => .error f s
      | .ok _ s =>
        match r.isEndpoint s.stream with
        | .error f => .error f s
        | .ok isOver =>
          let account := account ++ [.of s.stream isOver]
          if isOver && closes then
            match r.transcript s.stream with
            | .error f stream => .error f { s with stream }
            | .ok t stream =>
              let s := { s with stream := r.restart stream }
              drain r closes windows (account ++ [.utterance t]) s
          else drain r closes windows account s

end SpeechTransducer.Rehearsal
