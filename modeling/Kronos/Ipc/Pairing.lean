import Kronos.Ipc.Delivery
import Kronos.Ipc.Exchange

/-!
# Pairing replies with requests

A reader can only read a message that was sent whole, and then just as it was
sent. So a response that bears the id of a request answers that request, unless
a message with the same id was still on its way when the request was sent.
Sessions number their requests from one, so a session that leaves such messages
behind hands its replies on to the next one.
-/

set_option autoImplicit false

namespace Kronos.Ipc

variable {α M : Type} {ends : α → Bool}

/-! ## Lines ahead -/

theorem cutLines_clean_append {begun clean rest : List α}
    (noEnd : ∀ item ∈ clean, ends item = false) :
    cutLines ends begun (clean ++ rest) = cutLines ends (begun ++ clean) rest := by
  induction clean generalizing begun with
  | nil => simp
  | cons item clean ih =>
      rw [List.forall_mem_cons] at noEnd
      simp [cutLines, noEnd.1, ih noEnd.2]

theorem cutLines_line_append {line rest : List α} (is : IsLine ends line) :
    cutLines ends [] (line ++ rest) = line :: cutLines ends [] rest := by
  obtain ⟨body, stop, rfl, stops, clean⟩ := is
  rw [List.append_assoc, cutLines_clean_append clean]
  simp [cutLines, stops]

/-- A stream is some lines and a line begun, and appending goes on from there. -/
theorem cutLines_append (stream : List α) :
    ∃ begun, (∀ item ∈ begun, ends item = false) ∧ ∀ more,
      cutLines ends [] (stream ++ more) =
        cutLines ends [] stream ++ cutLines ends [] (begun ++ more) := by
  suffices general : ∀ start : List α, (∀ item ∈ start, ends item = false) →
      ∃ begun, (∀ item ∈ begun, ends item = false) ∧ ∀ more,
        cutLines ends start (stream ++ more) =
          cutLines ends start stream ++ cutLines ends [] (begun ++ more) from
    general [] fun _ member => absurd member List.not_mem_nil
  induction stream with
  | nil =>
      intro start clean
      refine ⟨start, clean, fun more => ?_⟩
      rw [cutLines_clean_append clean]
      simp [cutLines]
  | cons item stream ih =>
      intro start clean
      by_cases stops : ends item = true
      · obtain ⟨begun, begunClean, goes⟩ := ih [] fun _ member => absurd member List.not_mem_nil
        exact ⟨begun, begunClean, fun more => by simp [cutLines, stops, goes more]⟩
      · have extended : ∀ other ∈ start ++ [item], ends other = false := by
          simpa [or_imp, forall_and, stops] using clean
        obtain ⟨begun, begunClean, goes⟩ := ih (start ++ [item]) extended
        exact ⟨begun, begunClean, fun more => by simp [cutLines, stops, goes more]⟩

theorem cutLines_of_clean {begun : List α} (clean : ∀ item ∈ begun, ends item = false) :
    cutLines ends [] begun = [] := by
  have all := @cutLines_clean_append α ends [] begun [] clean
  simpa [cutLines] using all

/-! ## Sending and receiving marked messages -/

/-- A message of this protocol: its kind is valid and not hexadecimal. -/
def Plain (message : ProtocolMessage) : Prop :=
  ValidKind message.kind ∧ ∃ byte ∈ message.kind, hexValue byte = none

/-- The bytes of a message, all with one mark. -/
def markedLine (message : ProtocolMessage) (mark : M) : List (UInt8 × M) :=
  (messageBody message ++ [newline]).map fun byte => (byte, mark)

theorem endsLine_markedBody {message : ProtocolMessage} (valid : ValidKind message.kind)
    (mark : M) : ∀ item ∈ (messageBody message).map fun byte => (byte, mark),
      endsLine item = false := by
  rw [List.forall_mem_map]
  intro byte inside
  simp only [endsLine, isNewline, decide_eq_false_iff_not]
  rintro rfl
  exact newline_not_mem_messageBody valid inside

/-- A line that ends in a whole message reads as that message or not at all. -/
theorem readMarked_append {begun : List (UInt8 × M)} {message : ProtocolMessage} {mark : M}
    (plain : Plain message) {read : ProtocolMessage × M}
    (reads : readMarked (begun ++ markedLine message mark) = some read) :
    read = (message, mark) := by
  have bytes : (begun ++ markedLine message mark).map Prod.fst =
      begun.map Prod.fst ++ messageBody message ++ [newline] := by
    simp [markedLine, Function.comp_def]
  have last : (begun ++ markedLine message mark).getLast? = some (newline, mark) := by
    simp [markedLine, ← List.append_assoc]
  rw [readMarked, bytes, last] at reads
  split at reads
  · next decoded known =>
      obtain rfl : read = _ := (Option.some.inj reads).symm
      cases known
      by_cases glue : begun.map Prod.fst = []
      · rw [glue, List.nil_append, decodeMessage_body plain.1, Except.ok.injEq] at decoded
        rw [decoded]
      · obtain ⟨byte, inside, noDigit⟩ := plain.2
        have digit := (decodeMessage_glued glue plain.1 decoded).2 byte inside
        rw [noDigit] at digit
        cases digit
  · cases reads

/-- A send that returns appends the whole line, one that throws no newline. -/
theorem sendMarked_spec {message : ProtocolMessage} (valid : ValidKind message.kind) (mark : M)
    (answers : List WriteAnswer) (pipe : List (UInt8 × M)) :
    ∃ piece, (sendMarked answers message mark pipe).2 = pipe ++ piece ∧
      ((sendMarked answers message mark pipe).1 = .ok () ∧ piece = markedLine message mark ∨
        (sendMarked answers message mark pipe).1 ≠ .ok () ∧
          ∀ item ∈ piece, endsLine item = false) := by
  have unfolded : sendMarked answers message mark pipe =
      sendLine answers (markedLine message mark) pipe := by
    simp only [sendMarked, encodeMessage_eq valid, markedLine]
  rw [unfolded, sendLine]
  split
  · exact ⟨[], by simp, .inr ⟨by simp, fun _ member => absurd member List.not_mem_nil⟩⟩
  · have loop := sendLoop_spec answers (markedLine message mark) pipe
    have bound := taken_le answers (markedLine message mark).length
    refine ⟨_, loop.1, ?_⟩
    by_cases all : taken answers (markedLine message mark).length =
        (markedLine message mark).length
    · exact .inl ⟨loop.2.mpr all, by rw [all, List.take_length]⟩
    · refine .inr ⟨fun returned => all (loop.2.mp returned), fun item inside => ?_⟩
      have size : (markedLine message mark).length = (messageBody message).length + 1 := by
        simp [markedLine]
      have short : taken answers (markedLine message mark).length ≤
          ((messageBody message).map fun byte => (byte, mark)).length := by
        rw [List.length_map]
        omega
      have cut : (markedLine message mark).take (taken answers (markedLine message mark).length) =
          ((messageBody message).map fun byte => (byte, mark)).take
            (taken answers (markedLine message mark).length) := by
        generalize taken answers (markedLine message mark).length = count at short
        rw [markedLine, List.map_append, List.take_append_of_le_length short]
      rw [cut] at inside
      exact endsLine_markedBody valid mark item (List.mem_of_mem_take inside)

/-- A send adds nothing to read, or the whole message when it returns. -/
theorem ahead_sendMarked {message : ProtocolMessage} (plain : Plain message) (mark : M)
    (answers : List WriteAnswer) (pipe buffer : List (UInt8 × M)) {read : ProtocolMessage × M}
    (member : read ∈ Inbox.ahead ⟨(sendMarked answers message mark pipe).2, buffer⟩) :
    read ∈ Inbox.ahead ⟨pipe, buffer⟩ ∨
      (sendMarked answers message mark pipe).1 = .ok () ∧ read = (message, mark) := by
  obtain ⟨piece, sent, outcome⟩ := sendMarked_spec plain.1 mark answers pipe
  obtain ⟨begun, clean, goes⟩ := @cutLines_append _ (@endsLine M) (buffer ++ pipe)
  rw [Inbox.ahead, sent, ← List.append_assoc, goes, List.filterMap_append,
    List.mem_append] at member
  refine member.imp id fun new => ?_
  rcases outcome with ⟨returned, rfl⟩ | ⟨_, pieceClean⟩
  · refine ⟨returned, ?_⟩
    have line : IsLine endsLine (begun ++ markedLine message mark) := by
      refine ⟨begun ++ (messageBody message).map fun byte => (byte, mark), (newline, mark),
        by simp [markedLine], by simp [endsLine, isNewline], ?_⟩
      rw [List.forall_mem_append]
      exact ⟨clean, endsLine_markedBody plain.1 mark⟩
    have single := @cutLines_line_append _ _ _ [] line
    rw [List.append_nil] at single
    rw [single] at new
    simp only [cutLines, List.mem_filterMap, List.mem_singleton, exists_eq_left] at new
    exact readMarked_append plain new
  · rw [cutLines_of_clean (List.forall_mem_append.mpr ⟨clean, pieceClean⟩)] at new
    exact absurd new List.not_mem_nil

/-- A call of `receive` takes the first message ahead, or none. -/
theorem ahead_receiveLine (answers : ReceiveAnswers) (inbox : Inbox (UInt8 × M)) :
    (∀ read ∈ (receiveLine endsLine answers inbox).2.ahead, read ∈ inbox.ahead) ∧
      ∀ line read, (receiveLine endsLine answers inbox).1 = .ok (some line) →
        readMarked line = some read → read ∈ inbox.ahead := by
  have reads := reads_receiveLine endsLine answers inbox
  generalize receiveLine endsLine answers inbox = received at reads
  obtain ⟨moved, pipe, buffer⟩ := reads.conserved
  have stream : inbox.buffer ++ inbox.pipe =
      received.1.toOption.join.getD [] ++ (received.2.buffer ++ received.2.pipe) := by
    rw [pipe, ← List.append_assoc, buffer, List.append_assoc]
  cases heard : received.1.toOption.join with
  | none =>
      rw [heard, Option.getD_none, List.nil_append] at stream
      refine ⟨fun read member => by rwa [Inbox.ahead, stream], fun line read is => ?_⟩
      rw [is] at heard
      cases heard
  | some line =>
      have is : received.1 = .ok (some line) := by
        cases outcome : received.1 <;> simp_all [Except.toOption]
      rw [heard, Option.getD_some] at stream
      have cut : inbox.ahead = ((readMarked line).toList ++ received.2.ahead) := by
        rw [Inbox.ahead, stream, cutLines_line_append (reads.line line is)]
        cases read : readMarked line <;> simp [Inbox.ahead, read]
      refine ⟨fun read member => by simp [cut, member], fun other read same known => ?_⟩
      rw [is] at same
      cases same
      simp [cut, known]

/-! ## Outstanding messages -/

/-- A message that bears the id can still be read by the daemon or by the
session, or is being handled, or has been received. -/
def Exchange.Outstanding (exchange : Exchange) (session : Session) (id : UInt64) : Prop :=
  (∃ read ∈ exchange.requests.ahead, read.1.requestId = id) ∨
    exchange.handling.map (fun handling => handling.request.requestId) = some id ∨
    (∃ read ∈ (exchange.inbox session).ahead,
      read.1.kind ≠ eventKind ∧ read.1.requestId = id) ∨
    (session.responses.lookup id).isSome

instance (exchange : Exchange) (session : Session) (id : UInt64) :
    Decidable (exchange.Outstanding session id) :=
  inferInstanceAs (Decidable (_ ∨ _ ∨ _ ∨ _))

def Event.asks : Event → Bool
  | .ask _ _ => true
  | _ => false

/-- A request is sent only when no message with its id is outstanding. -/
def Exchange.Fresh (exchange : Exchange) (event : Event) : Prop :=
  event.asks = true → ∀ session ∈ exchange.session,
    ¬ exchange.Outstanding session session.nextRequestId

instance (exchange : Exchange) (event : Event) : Decidable (exchange.Fresh event) :=
  inferInstanceAs (Decidable (_ → _))

/-- Every outstanding message with the id of a request is the request, or a
reply that the daemon produced for it. -/
structure Answers (exchange : Exchange) (session : Session) (id : UInt64) (number : Nat) :
    Prop where
  request : ∀ read ∈ exchange.requests.ahead, read.1.requestId = id → read.2 = number
  handled : ∀ handling, exchange.handling = some handling →
    handling.request.requestId = id → handling.number = number
  reply : ∀ read ∈ (exchange.inbox session).ahead, read.1.kind ≠ eventKind →
    read.1.requestId = id → read.2 = some number ∧ (number, read.1) ∈ exchange.produced
  response : ∀ response, session.responses.lookup id = some response →
    response.2 = some number ∧ (number, response.1) ∈ exchange.produced

/-- What is asked of every run: each response that `execute` returned answers
its own request, and is one the daemon produced for it. -/
def Paired (exchange : Exchange) : Prop :=
  ∀ answer ∈ exchange.returned,
    answer.answered = some answer.number ∧ (answer.number, answer.response) ∈ exchange.produced

instance (exchange : Exchange) : Decidable (Paired exchange) :=
  inferInstanceAs (Decidable (∀ answer ∈ exchange.returned, _))

structure Sound (exchange : Exchange) : Prop where
  waiting : ∀ session id number, exchange.session = some session →
    session.waiting = some (id, number) → Answers exchange session id number
  paired : Paired exchange

theorem plain_of_kind {message : ProtocolMessage}
    (known : message.kind ∈ [requestKind, eventKind, okKind, errorKind]) : Plain message := by
  have kinds : ∀ kind ∈ [requestKind, eventKind, okKind, errorKind],
      ValidKind kind ∧ ∃ byte ∈ kind, hexValue byte = none := by decide
  exact kinds _ known

theorem plain_reply (handling : Handling) (succeeds : Bool) (what : Bytes) :
    Plain (handling.reply succeeds what) ∧
      (handling.reply succeeds what).requestId = handling.request.requestId := by
  unfold Handling.reply
  split
  · exact ⟨plain_of_kind (by simp), rfl⟩
  · split
    · exact ⟨plain_of_kind (by simp), rfl⟩
    · cases succeeds <;> exact ⟨plain_of_kind (by simp), rfl⟩

/-! ## Steps -/

theorem isOk_iff {result : Except Bytes Unit} : result.isOk = true ↔ result = .ok () := by
  cases result <;> simp [Except.isOk, Except.toBool]

theorem Sound.ask {exchange : Exchange} {session : Session} (sound : Sound exchange)
    (fresh : ¬ exchange.Outstanding session session.nextRequestId) (tokens : List Bytes)
    (answers : List WriteAnswer) : Sound (exchange.ask session tokens answers) := by
  simp only [Exchange.Outstanding, not_or] at fresh
  obtain ⟨noRequest, notHandled, noReply, noResponse⟩ := fresh
  refine ⟨?_, sound.paired⟩
  intro later id number now waits
  cases now
  simp only [ite_eq_iff, reduceCtorEq, and_false, or_false] at waits
  obtain ⟨_, waits⟩ := waits
  cases waits
  refine ⟨?_, ?_, ?_, ?_⟩
  · intro read member same
    rcases ahead_sendMarked (plain_of_kind (by simp)) _ _ _ _ member with old | ⟨_, rfl⟩
    · exact absurd ⟨read, old, same⟩ noRequest
    · rfl
  · intro handling handles same
    refine absurd ?_ notHandled
    rw [show exchange.handling = some handling from handles, Option.map_some, same]
  · intro read member reply same
    exact absurd ⟨read, member, reply, same⟩ noReply
  · intro response received
    rw [show session.responses.lookup session.nextRequestId = some response from received]
      at noResponse
    simp at noResponse

/-- What the listener stores is a message it had ahead. -/
theorem lookup_hear {session : Session} {inbox : Inbox (UInt8 × Option Nat)}
    {answers : ReceiveAnswers} {id : UInt64} {response : ProtocolMessage × Option Nat}
    (found : (session.hear (receiveLine endsLine answers inbox).1).responses.lookup id =
      some response) :
    session.responses.lookup id = some response ∨
      response ∈ inbox.ahead ∧ response.1.kind ≠ eventKind ∧ response.1.requestId = id := by
  have reads := reads_receiveLine endsLine answers inbox
  have ahead := (ahead_receiveLine answers inbox).2
  generalize receiveLine endsLine answers inbox = received at found reads ahead
  rcases heard : received.1 with what | (_ | line)
  · rw [heard] at found
    exact .inl found
  · rw [heard] at found
    exact .inl found
  · rw [heard] at found
    obtain ⟨body, stop, shape, _⟩ := reads.line line heard
    simp only [Session.hear] at found
    split at found
    · exact .inl found
    · next message decoded =>
        split at found
        · exact .inl found
        · next reply =>
            rw [List.lookup_cons] at found
            split at found
            · next same =>
                cases found
                have known : readMarked line =
                    some (message, (line.getLast?.map Prod.snd).join) := by
                  simp only [readMarked, decoded]
                  simp [shape]
                exact .inr ⟨ahead line _ heard known, reply, (eq_of_beq same).symm⟩
            · exact .inl found

theorem hear_waiting (session : Session)
    (outcome : Except Bytes (Option (List (UInt8 × Option Nat)))) :
    (session.hear outcome).waiting = session.waiting ∧
      (session.hear outcome).readBuffer = session.readBuffer := by
  unfold Session.hear
  split
  · exact ⟨rfl, rfl⟩
  · exact ⟨rfl, rfl⟩
  · split
    · exact ⟨rfl, rfl⟩
    · split <;> exact ⟨rfl, rfl⟩

theorem Sound.listen {exchange : Exchange} {session : Session} (sound : Sound exchange)
    (current : exchange.session = some session) (answers : ReceiveAnswers) :
    Sound (exchange.listen session answers) := by
  refine ⟨?_, sound.paired⟩
  intro later id number now waits
  cases now
  have kept := hear_waiting
    { session with readBuffer := (receiveLine endsLine answers (exchange.inbox session)).2.buffer }
    (receiveLine endsLine answers (exchange.inbox session)).1
  rw [kept.1] at waits
  have before := sound.waiting session id number current waits
  refine ⟨before.request, before.handled, ?_, ?_⟩
  · intro read member
    refine before.reply read ((ahead_receiveLine answers (exchange.inbox session)).1 read ?_)
    rw [Exchange.inbox, kept.2] at member
    exact member
  · intro response found
    rcases lookup_hear found with old | ⟨member, reply, same⟩
    · exact before.response response old
    · exact before.reply response member reply same

theorem Sound.serve {exchange : Exchange} (sound : Sound exchange) (answers : ReceiveAnswers) :
    Sound (exchange.serve answers) := by
  have ahead := ahead_receiveLine answers exchange.requests
  refine ⟨?_, sound.paired⟩
  intro session id number now waits
  have before := sound.waiting session id number now waits
  refine ⟨fun read member => before.request read (ahead.1 read member), ?_, before.reply,
    before.response⟩
  intro handling handles same
  simp only [Exchange.serve] at handles
  split at handles
  · next line heard =>
      obtain ⟨read, known, rfl⟩ := Option.map_eq_some_iff.mp handles
      exact before.request read (ahead.2 line read heard known) same
  · cases handles

theorem Sound.respond {exchange : Exchange} {handling : Handling} (sound : Sound exchange)
    (current : exchange.handling = some handling) (succeeds : Bool) (what : Bytes)
    (answers : List WriteAnswer) : Sound (exchange.respond handling succeeds what answers) := by
  have grown : ∀ entry ∈ exchange.produced,
      entry ∈ (exchange.respond handling succeeds what answers).produced := by
    intro entry member
    simp only [Exchange.respond]
    split
    · exact List.mem_cons_of_mem _ member
    · exact member
  refine ⟨?_, fun answer member => ?_⟩
  · intro session id number now waits
    have before := sound.waiting session id number now waits
    refine ⟨before.request, ?_, ?_, ?_⟩
    · intro later handles same
      simp only [Exchange.respond] at handles
      split at handles
      · cases handles
      · cases handles
        exact before.handled handling current same
    · intro read member reply same
      obtain ⟨plain, identity⟩ := plain_reply handling succeeds what
      rcases ahead_sendMarked plain _ _ _ _ member with old | ⟨returned, rfl⟩
      · obtain ⟨mark, known⟩ := before.reply read old reply same
        exact ⟨mark, grown _ known⟩
      · have mine := before.handled handling current (identity.symm.trans same)
        refine ⟨by rw [mine], ?_⟩
        simp only [Exchange.respond]
        rw [if_pos (isOk_iff.mpr returned), mine]
        exact List.mem_cons_self
    · intro response found
      obtain ⟨mark, known⟩ := before.response response found
      exact ⟨mark, grown _ known⟩
  · obtain ⟨mark, known⟩ := sound.paired answer member
    exact ⟨mark, grown _ known⟩

theorem Sound.notify {exchange : Exchange} (sound : Sound exchange) (what : Bytes)
    (answers : List WriteAnswer) :
    Sound
      { exchange with
        responses := (sendMarked answers ⟨0, eventKind, [what]⟩ none exchange.responses).2 } := by
  refine ⟨?_, sound.paired⟩
  intro session id number now waits
  have before := sound.waiting session id number now waits
  refine ⟨before.request, before.handled, ?_, before.response⟩
  intro read member reply same
  rcases ahead_sendMarked (plain_of_kind (by simp)) _ _ _ _ member with old | ⟨_, rfl⟩
  · exact before.reply read old reply same
  · exact absurd rfl reply

/-- Without a wait there is nothing to keep but what was returned before. -/
theorem Sound.of_not_waiting {exchange next : Exchange} (sound : Sound exchange)
    (quiet : ∀ session, next.session = some session → session.waiting = none)
    (returned : next.returned = exchange.returned) (produced : next.produced = exchange.produced) :
    Sound next := by
  refine ⟨?_, ?_⟩
  · intro session id number now waits
    rw [quiet session now] at waits
    cases waits
  · unfold Paired
    rw [returned, produced]
    exact sound.paired

theorem Sound.step {exchange next : Exchange} {event : Event} (sound : Sound exchange)
    (fresh : exchange.Fresh event) (stepped : exchange.step event = some next) : Sound next := by
  cases event with
  | connect =>
      simp only [Exchange.step] at stepped
      split at stepped
      · cases stepped
        exact sound.of_not_waiting (by simp) rfl rfl
      · cases stepped
  | ask tokens answers =>
      simp only [Exchange.step] at stepped
      split at stepped
      · next session current =>
          split at stepped
          · cases stepped
            exact sound.ask (fresh rfl session current) tokens answers
          · cases stepped
      · cases stepped
  | listen answers =>
      simp only [Exchange.step] at stepped
      split at stepped
      · next session current =>
          split at stepped
          · cases stepped
            exact sound.listen current answers
          · cases stepped
      · cases stepped
  | collect =>
      simp only [Exchange.step] at stepped
      split at stepped
      · next session current =>
          split at stepped
          · cases stepped
            exact sound.of_not_waiting (by simp) rfl rfl
          · next waiting response waits _ found =>
              cases stepped
              rw [waits, Option.bind_some] at found
              have answers := sound.waiting session waiting.1 waiting.2 current waits
              refine ⟨?_, List.forall_mem_cons.mpr ⟨answers.response response found, sound.paired⟩⟩
              rintro _ id number ⟨⟩ waits
              cases waits
          · cases stepped
      · cases stepped
  | timeOut =>
      simp only [Exchange.step] at stepped
      split at stepped
      · split at stepped
        · cases stepped
          exact sound.of_not_waiting (by simp) rfl rfl
        · cases stepped
      · cases stepped
  | disconnect =>
      simp only [Exchange.step] at stepped
      split at stepped
      · cases stepped
        exact sound.of_not_waiting (by simp) rfl rfl
      · cases stepped
  | serve answers =>
      simp only [Exchange.step] at stepped
      split at stepped
      · cases stepped
        exact sound.serve answers
      · cases stepped
  | fail =>
      simp only [Exchange.step] at stepped
      split at stepped
      · next handling current =>
          split at stepped
          · cases stepped
            refine ⟨?_, sound.paired⟩
            intro session id number now waits
            have before := sound.waiting session id number now waits
            refine ⟨before.request, ?_, before.reply, before.response⟩
            rintro _ ⟨⟩ same
            exact before.handled handling current same
          · cases stepped
      · cases stepped
  | respond succeeds what answers =>
      simp only [Exchange.step] at stepped
      split at stepped
      · next handling current =>
          cases stepped
          exact sound.respond current succeeds what answers
      · cases stepped
  | notify what answers =>
      cases stepped
      exact sound.notify what answers

/-- In every run that sends a request only when no message with its id is
outstanding, each response returned is the one the daemon produced for the
request it is returned for. -/
theorem paired_of_fresh (exchange : Exchange)
    (reached : Reaches Exchange.step Exchange.Fresh {} exchange) : Paired exchange := by
  refine (reached.invariant Sound ⟨?_, ?_⟩ ?_).paired
  · rintro session id number ⟨⟩
  · exact fun answer member => absurd member List.not_mem_nil
  · intro state event next sound fresh stepped
    exact sound.step fresh stepped

/-- A session ends after its request is answered, and the next one asks something else. -/
def staleRun : List Event :=
  [.connect, .ask [text "ping"] [], .serve ⟨[.ready], [.count 100]⟩,
    .respond true (text "pong") [], .disconnect,
    .connect, .ask [text "kill", text "7"] [], .listen ⟨[.ready], [.count 100]⟩, .collect]

def staleExchange : Exchange :=
  (runAll Exchange.step (fun _ _ => True) {} staleRun).getD {}

/-- The second session is told `pong` before the daemon has read its request. -/
theorem not_paired_staleRun :
    ∃ exchange, Reaches Exchange.step (fun _ _ => True) {} exchange ∧ ¬ Paired exchange := by
  have ran : runAll Exchange.step (fun _ _ => True) {} staleRun = some staleExchange := by
    decide +kernel
  exact ⟨_, reaches_of_runAll ran, by decide +kernel⟩

/-- The first session waits for its reply, and the second one starts afresh. -/
def freshRun : List Event :=
  [.connect, .ask [text "ping"] [], .serve ⟨[.ready], [.count 100]⟩,
    .respond true (text "pong") [], .listen ⟨[.ready], [.count 9, .count 100]⟩, .collect,
    .disconnect, .connect, .ask [text "kill", text "7"] [],
    .serve ⟨[.ready], [.interrupted, .count 100]⟩, .notify (text "job 7 COMPLETED: ") [],
    .respond false (text "job not found") [.wrote 5, .failed], .respond false (text "x") [],
    .listen ⟨[.ready], [.count 100]⟩]

def freshExchange : Exchange := (runAll Exchange.step Exchange.Fresh {} freshRun).getD {}

theorem paired_freshRun :
    Reaches Exchange.step Exchange.Fresh {} freshExchange ∧
      freshExchange.returned ≠ [] ∧ Paired freshExchange := by
  have ran : runAll Exchange.step Exchange.Fresh {} freshRun = some freshExchange := by
    decide +kernel
  have reached := reaches_of_runAll ran
  exact ⟨reached, by decide +kernel, paired_of_fresh _ reached⟩

end Kronos.Ipc
