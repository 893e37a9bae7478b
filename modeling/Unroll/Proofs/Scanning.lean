import Unroll.Proofs.LongestMatch
import Unroll.Token.Scanner

set_option autoImplicit false

/-!
# Scanning as a relation

`Scans` reads tokens from the start of a text, with the text behind them in view, so that readings
compose. A scanner's answers are such a reading up to the end of the source or to a place where no
rule matches.
-/

namespace Unroll

open Pattern

namespace Rule

theorem mem_all_iff (rule : Rule) :
    rule ∈ all ↔ rule = ⟨lineComment, .skip⟩ ∨ rule = ⟨blockComment, .skip⟩ ∨
      rule = ⟨whiteSpace, .skip⟩ ∨ rule = ⟨stringLiteral, .emit .string⟩ ∨
      rule = ⟨charLiteral, .emit .char⟩ ∨ rule = ⟨name, .emit .ident⟩ ∨
      rule = ⟨decimalLiteral, .emit .int⟩ ∨ rule = ⟨hexLiteral, .emit .int⟩ ∨
      rule = ⟨octalLiteral, .emit .int⟩ ∨ rule = ⟨binaryLiteral, .emit .int⟩ ∨
      rule = ⟨floatLiteral, .emit .float⟩ ∨
      ∃ character ∈ marks ++ brackets, rule = single character := by
  simp only [all, List.mem_append, List.mem_cons, List.mem_map, List.not_mem_nil, or_false,
    or_assoc, eq_comm]

theorem emit_ne_eof {rule : Rule} (membership : rule ∈ all) : rule.action ≠ .emit .eof := by
  have checked : ∀ rule ∈ all, rule.action ≠ .emit .eof := by decide
  exact checked rule membership

end Rule

/-- From an offset and the text there, these tokens are read up to another offset and text. -/
inductive Scans : Nat → Bytes → List Token → Nat → Bytes → Prop where
  | stay {offset text} : Scans offset text [] offset text
  | skip {offset text size tokens stop rest} :
      longestMatch? Rule.all text = some ⟨size, .skip⟩ →
      Scans (offset + size) (text.drop size) tokens stop rest →
      Scans offset text tokens stop rest
  | emit {offset text size kind tokens stop rest} :
      longestMatch? Rule.all text = some ⟨size, .emit kind⟩ →
      Scans (offset + size) (text.drop size) tokens stop rest →
      Scans offset text (⟨kind, text.take size, ⟨offset, offset + size⟩⟩ :: tokens) stop rest

namespace Scans

theorem append {offset middle stop : Nat} {text between rest : Bytes} {tokens more : List Token}
    (first : Scans offset text tokens middle between)
    (second : Scans middle between more stop rest) :
    Scans offset text (tokens ++ more) stop rest := by
  induction first with
  | stay => exact second
  | skip matched _ inductionHypothesis => exact .skip matched (inductionHypothesis second)
  | emit matched _ inductionHypothesis => exact .emit matched (inductionHypothesis second)

theorem kind_ne_eof {offset stop : Nat} {text rest : Bytes} {tokens : List Token}
    (scanned : Scans offset text tokens stop rest) : ∀ token ∈ tokens, token.kind ≠ .eof := by
  induction scanned with
  | stay => simp
  | skip _ _ inductionHypothesis => exact inductionHypothesis
  | @emit offset text size kind tokens stop rest matched _ inductionHypothesis =>
    intro token membership
    rcases List.mem_cons.mp membership with rfl | inTail
    · obtain ⟨rule, ruleMembership, action, -⟩ :=
        (longestMatch?_eq_some_iff.mp matched).takes.exists_mem
      intro isEof
      refine Rule.emit_ne_eof ruleMembership ?_
      rw [action]
      exact congrArg Action.emit isEof
    · exact inductionHypothesis token inTail

end Scans

namespace Scanner

/-- The place where reading ends: the end of the source, or text that no rule matches. -/
def Halted (rest : Bytes) : Prop := rest = [] ∨ longestMatch? Rule.all rest = none

/-- What is found next is read by one step of the relation for a token, and by none otherwise. -/
def FoundBy (offset : Nat) (rest : Bytes) : Scanned → Prop
  | .token token offset' rest' => Scans offset rest [token] offset' rest'
  | .finished => ∃ offset', Scans offset rest [] offset' []
  | .stuck offset' rest' => Scans offset rest [] offset' rest' ∧ rest' ≠ [] ∧
      longestMatch? Rule.all rest' = none

theorem find_foundBy (offset : Nat) (rest : Bytes) : FoundBy offset rest (find offset rest) := by
  fun_induction find offset rest with
  | case1 offset => exact ⟨offset, .stay⟩
  | case2 offset b tail unmatched => exact ⟨.stay, by simp, unmatched⟩
  | case3 offset b tail size kind matched => exact .emit matched .stay
  | case4 offset b tail size matched positive inductionHypothesis =>
    generalize find (offset + size) ((b :: tail).drop size) = found at inductionHypothesis ⊢
    cases found with
    | token token offset' rest' => exact .skip matched inductionHypothesis
    | finished =>
      obtain ⟨offset', scanned⟩ := inductionHypothesis
      exact ⟨offset', .skip matched scanned⟩
    | stuck offset' rest' =>
      obtain ⟨scanned, nonempty, unmatched⟩ := inductionHypothesis
      exact ⟨.skip matched scanned, nonempty, unmatched⟩

/-- The answer behind the last token: a plain end, or the report of a text that no rule matches. -/
def lastAnswer (source : Bytes) (offset : Nat) : Bytes → Token × Option Fault
  | [] => (Token.ending, none)
  | rest =>
    let read := deadEnd Rule.all rest
    (⟨.eof, [], ⟨offset, offset + read + 1⟩⟩, some (unscannableAt source offset read))

theorem lastAnswer_of_ne_nil (source : Bytes) (offset : Nat) {rest : Bytes} (nonempty : rest ≠ []) :
    lastAnswer source offset rest =
      (⟨.eof, [], ⟨offset, offset + deadEnd Rule.all rest + 1⟩⟩,
        some (unscannableAt source offset (deadEnd Rule.all rest))) := by
  cases rest with
  | nil => exact absurd rfl nonempty
  | cons _ _ => rfl

/-- The events of one answer. A fault is reported in front of the token. -/
def eventsOf (answer : Token × Option Fault) : List Event :=
  (answer.2.map Event.report).toList ++ [.token answer.1]

/-- The last answer yields an end, and a report if it stops in front of the end of the source. -/
theorem event_of_lastAnswer {source rest : Bytes} {offset : Nat} {event : Event}
    (yielded : event ∈ eventsOf (lastAnswer source offset rest)) :
    (∃ token, event = .token token ∧ token.kind = .eof) ∨
      rest ≠ [] ∧ event = .report (unscannableAt source offset (deadEnd Rule.all rest)) := by
  cases rest with
  | nil => exact .inl ⟨Token.ending, List.mem_singleton.mp yielded, rfl⟩
  | cons b rest =>
    rcases List.mem_cons.mp yielded with isReport | isEnd
    · exact .inr ⟨List.cons_ne_nil b rest, isReport⟩
    · exact .inl ⟨_, List.mem_singleton.mp isEnd, rfl⟩

theorem events_eq (scanner : Scanner) (running : scanner.stopped = false) :
    ∃ tokens offset rest, Scans scanner.offset scanner.rest tokens offset rest ∧ Halted rest ∧
      scanner.events = tokens.map .token ++ eventsOf (lastAnswer scanner.source offset rest) := by
  fun_induction events scanner with
  | case1 scanner stopped =>
    rw [running] at stopped
    cases stopped
  | case2 scanner stopped token offset rest found inductionHypothesis =>
    have first := find_foundBy scanner.offset scanner.rest
    rw [found] at first
    obtain ⟨tokens, offset', rest', scanned, halted, tail⟩ := inductionHypothesis running
    refine ⟨token :: tokens, offset', rest', first.append scanned, halted, ?_⟩
    rw [tail]
    rfl
  | case3 scanner stopped found =>
    have first := find_foundBy scanner.offset scanner.rest
    rw [found] at first
    obtain ⟨offset, scanned⟩ := first
    exact ⟨[], offset, [], scanned, .inl rfl, rfl⟩
  | case4 scanner stopped offset rest found read =>
    have first := find_foundBy scanner.offset scanner.rest
    rw [found] at first
    obtain ⟨scanned, nonempty, unmatched⟩ := first
    refine ⟨[], offset, rest, scanned, .inr unmatched, ?_⟩
    rw [lastAnswer_of_ne_nil _ _ nonempty]
    rfl

/-! What is yielded from a place, step by step. -/

section

variable {offset size : Nat} {rest : Bytes}

theorem find_skip (matched : longestMatch? Rule.all rest = some ⟨size, .skip⟩) :
    find offset rest = find (offset + size) (rest.drop size) := by
  cases rest with
  | nil => cases matched
  | cons b tail =>
    rw [find.eq_def]
    dsimp only
    rw [matched]

theorem find_emit {kind : Kind}
    (matched : longestMatch? Rule.all rest = some ⟨size, .emit kind⟩) :
    find offset rest =
      .token ⟨kind, rest.take size, ⟨offset, offset + size⟩⟩ (offset + size) (rest.drop size) := by
  cases rest with
  | nil => cases matched
  | cons b tail =>
    rw [find.eq_def]
    dsimp only
    rw [matched]

/-- What a scanner yields depends on its place only by what is found there. -/
theorem events_congr (source : Bytes) {offset' : Nat} {rest' : Bytes}
    (same : find offset rest = find offset' rest') :
    events ⟨source, offset, rest, false⟩ = events ⟨source, offset', rest', false⟩ := by
  rw [events.eq_def ⟨source, offset, rest, false⟩, events.eq_def ⟨source, offset', rest', false⟩]
  dsimp only
  rw [same]

theorem events_of_token (source : Bytes) {offset' : Nat} {rest' : Bytes} {token : Token}
    (found : find offset rest = .token token offset' rest') :
    events ⟨source, offset, rest, false⟩ =
      .token token :: events ⟨source, offset', rest', false⟩ := by
  rw [events.eq_def]
  dsimp only
  rw [found]
  rfl

theorem events_of_halted (source : Bytes) (halted : Halted rest) :
    events ⟨source, offset, rest, false⟩ = eventsOf (lastAnswer source offset rest) := by
  rw [events.eq_def]
  dsimp only
  cases rest with
  | nil =>
    rw [find]
    rfl
  | cons b tail =>
    rcases halted with impossible | unmatched
    · cases impossible
    · have found : find offset (b :: tail) = .stuck offset (b :: tail) := by
        rw [find.eq_def]
        dsimp only
        rw [unmatched]
      rw [found]
      rfl

end

/-! The answers of call after call. -/

/-- The scanner behind so many calls. -/
def after (scanner : Scanner) : Nat → Scanner
  | 0 => scanner
  | calls + 1 => scanner.next.2.2.after calls

/-- The answer to a call, counted from zero: its token, and the fault it reports. -/
def answer (scanner : Scanner) (call : Nat) : Token × Option Fault :=
  ((scanner.after call).next.1, (scanner.after call).next.2.1)

theorem answer_succ (scanner : Scanner) (call : Nat) :
    scanner.answer (call + 1) = scanner.next.2.2.answer call := rfl

theorem answer_of_stopped {scanner : Scanner} (stopped : scanner.stopped = true) (call : Nat) :
    scanner.answer call = (Token.ending, none) := by
  have step : scanner.next = (Token.ending, none, scanner) := by simp [next, stopped]
  induction call with
  | zero => simp [answer, after, step]
  | succ call inductionHypothesis => rw [answer_succ, step, inductionHypothesis]

theorem answer_of_rest_nil {scanner : Scanner} (empty : scanner.rest = []) (call : Nat) :
    scanner.answer call = (Token.ending, none) := by
  have step : scanner.next = (Token.ending, none, scanner) := by
    unfold next
    split
    · rfl
    · rw [empty, find, ← empty]
  induction call with
  | zero => simp [answer, after, step]
  | succ call inductionHypothesis => rw [answer_succ, step, inductionHypothesis]

/-- A running scanner answers with the tokens it reads, once with its last answer, and from then on
with plain ends. -/
theorem answer_eq (scanner : Scanner) (running : scanner.stopped = false) :
    ∃ tokens offset rest, Scans scanner.offset scanner.rest tokens offset rest ∧ Halted rest ∧
      ∀ call, scanner.answer call =
        (tokens.map (fun token => (token, none)) ++
          [lastAnswer scanner.source offset rest]).getD call (Token.ending, none) := by
  have first := find_foundBy scanner.offset scanner.rest
  cases found : find scanner.offset scanner.rest with
  | token token offset rest =>
    rw [found] at first
    have shorter := find_token_length found
    have step : scanner.next = (token, none, { scanner with offset, rest }) := by
      simp [next, running, found]
    obtain ⟨tokens, offset', rest', scanned, halted, answers⟩ :=
      answer_eq { scanner with offset, rest } running
    refine ⟨token :: tokens, offset', rest', first.append scanned, halted, ?_⟩
    intro call
    cases call with
    | zero => simp [answer, after, step]
    | succ call =>
      rw [answer_succ, step, answers call]
      rfl
  | finished =>
    rw [found] at first
    obtain ⟨offset, scanned⟩ := first
    have step : scanner.next = (Token.ending, none, { scanner with rest := [] }) := by
      simp [next, running, found]
    refine ⟨[], offset, [], scanned, .inl rfl, ?_⟩
    intro call
    cases call with
    | zero => simp [answer, after, step, lastAnswer]
    | succ call =>
      rw [answer_succ, step, answer_of_rest_nil rfl]
      rfl
  | stuck offset rest =>
    rw [found] at first
    obtain ⟨scanned, nonempty, unmatched⟩ := first
    refine ⟨[], offset, rest, scanned, .inr unmatched, ?_⟩
    intro call
    rw [lastAnswer_of_ne_nil _ _ nonempty]
    cases call with
    | zero => simp [answer, after, next, running, found]
    | succ call =>
      rw [answer_succ, answer_of_stopped (by simp [next, running, found])]
      rfl
termination_by scanner.rest.length

end Scanner

namespace Scans

theorem offset_le {offset stop : Nat} {text rest : Bytes} {tokens : List Token}
    (scanned : Scans offset text tokens stop rest) : offset ≤ stop := by
  induction scanned with
  | stay => exact Nat.le_refl _
  | skip _ _ inductionHypothesis => omega
  | emit _ _ inductionHypothesis => omega

/-- What is scanned is yielded first. -/
theorem events_append (source : Bytes) {offset stop : Nat} {text rest : Bytes}
    {tokens : List Token} (scanned : Scans offset text tokens stop rest) :
    Scanner.events ⟨source, offset, text, false⟩ =
      tokens.map .token ++ Scanner.events ⟨source, stop, rest, false⟩ := by
  induction scanned with
  | stay => rfl
  | skip matched _ inductionHypothesis =>
    rw [Scanner.events_congr source (Scanner.find_skip matched), inductionHypothesis]
  | emit matched _ inductionHypothesis =>
    rw [Scanner.events_of_token source (Scanner.find_emit matched), inductionHypothesis]
    rfl

end Scans

end Unroll
