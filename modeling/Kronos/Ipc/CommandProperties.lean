import Kronos.Ipc.Command

/-!
# Spellings of command lines

The words of a command line are made of pieces: bare characters, escaped ones and
quoted runs. Every line is either made of words, and then the tokenizer gives their
texts, or it ends where a piece is not finished, and then the tokenizer throws. A
word with an empty text is not a token, even though it was written.
-/

set_option autoImplicit false

namespace Kronos.Ipc

/-! ## Grammar -/

def IsQuote (byte : UInt8) : Prop := byte = singleQuote ∨ byte = doubleQuote

instance : DecidablePred IsQuote := fun _ => inferInstanceAs (Decidable (_ ∨ _))

/-- A character that stands for itself outside quotes. -/
structure Bare (byte : UInt8) : Prop where
  notSpace : isSpace byte = false
  notQuote : ¬ IsQuote byte
  notBackslash : byte ≠ backslash

/-- What stands between two quotes, and the text it is for. -/
inductive QuotedRun (quote : UInt8) : Bytes → Bytes → Prop where
  | nil : QuotedRun quote [] []
  | plain {spelling value : Bytes} (byte : UInt8) (notQuote : byte ≠ quote)
      (notBackslash : byte ≠ backslash) (rest : QuotedRun quote spelling value) :
      QuotedRun quote (byte :: spelling) (byte :: value)
  | escaped {spelling value : Bytes} (byte : UInt8) (rest : QuotedRun quote spelling value) :
      QuotedRun quote (backslash :: byte :: spelling) (byte :: value)

/-- A piece of a word, and the text it is for. -/
inductive Piece : Bytes → Bytes → Prop where
  | bare {byte : UInt8} (bare : Bare byte) : Piece [byte] [byte]
  | escaped (byte : UInt8) : Piece [backslash, byte] [byte]
  | quoted {quote : UInt8} {spelling value : Bytes} (isQuote : IsQuote quote)
      (run : QuotedRun quote spelling value) : Piece (quote :: (spelling ++ [quote])) value

/-- A concatenation of pieces, and its text. -/
inductive Spells : Bytes → Bytes → Prop where
  | nil : Spells [] []
  | cons {piece value spelling rest : Bytes} (first : Piece piece value)
      (others : Spells spelling rest) : Spells (piece ++ spelling) (value ++ rest)

def Blank (gap : Bytes) : Prop := ∀ byte ∈ gap, isSpace byte = true

/-- Words with white space between them, perhaps also behind the last one. -/
inductive SpellsWords : Bytes → List Bytes → Prop where
  | nil : SpellsWords [] []
  | cons {word token gap line : Bytes} {tokens : List Bytes} (spells : Spells word token)
      (nonempty : word ≠ []) (blank : Blank gap) (separated : tokens ≠ [] → gap ≠ [])
      (rest : SpellsWords line tokens) : SpellsWords (word ++ (gap ++ line)) (token :: tokens)

/-- A whole command line. -/
def SpellsCommand (line : Bytes) (tokens : List Bytes) : Prop :=
  ∃ gap words, Blank gap ∧ SpellsWords words tokens ∧ line = gap ++ words

/-- A line that ends inside a quote or right behind a backslash that is not itself
escaped. -/
inductive Unfinished : Bytes → Prop where
  | escape {line : Bytes} {tokens : List Bytes} (before : SpellsCommand line tokens) :
      Unfinished (line ++ [backslash])
  | quote {line spelling value : Bytes} {tokens : List Bytes} {quote : UInt8}
      (before : SpellsCommand line tokens) (isQuote : IsQuote quote)
      (run : QuotedRun quote spelling value) : Unfinished (line ++ quote :: spelling)
  | quotedEscape {line spelling value : Bytes} {tokens : List Bytes} {quote : UInt8}
      (before : SpellsCommand line tokens) (isQuote : IsQuote quote)
      (run : QuotedRun quote spelling value) :
      Unfinished (line ++ quote :: (spelling ++ [backslash]))

/-! ## Reading -/

theorem IsQuote.ne_zero {quote : UInt8} (isQuote : IsQuote quote) : quote ≠ 0 := by
  rcases isQuote with rfl | rfl <;> decide

theorem IsQuote.ne_backslash {quote : UInt8} (isQuote : IsQuote quote) : quote ≠ backslash := by
  rcases isQuote with rfl | rfl <;> decide

namespace Tokenizer

variable (tokens : List Bytes) (current : Bytes)

theorem read_quote {quote : UInt8} (isQuote : IsQuote quote) :
    read { tokens, current } quote = { tokens, current, quote } := by
  have notBackslash := isQuote.ne_backslash
  unfold IsQuote at isQuote
  simp [read, notBackslash, isQuote]

theorem foldl_read_run {quote : UInt8} (isQuote : IsQuote quote) {spelling value : Bytes}
    (run : QuotedRun quote spelling value) :
    spelling.foldl read { tokens, current, quote } =
      { tokens, current := current ++ value, quote } := by
  induction run generalizing current with
  | nil => simp
  | plain byte notQuote notBackslash _ ih =>
      simp [read, notBackslash, isQuote.ne_zero, notQuote, ih]
  | escaped byte _ ih => simp [read, ih]

theorem foldl_read_piece {piece value : Bytes} (is : Piece piece value) :
    piece.foldl read { tokens, current } = { tokens, current := current ++ value } := by
  cases is with
  | bare bare =>
      have notQuote := bare.notQuote
      unfold IsQuote at notQuote
      simp [read, bare.notBackslash, notQuote, bare.notSpace]
  | escaped byte => simp [read]
  | quoted isQuote run =>
      rw [List.foldl_cons, read_quote tokens current isQuote, List.foldl_append,
        foldl_read_run tokens current isQuote run]
      simp [read, isQuote.ne_backslash, isQuote.ne_zero]

theorem foldl_read_spells {spelling value : Bytes} (spells : Spells spelling value) :
    spelling.foldl read { tokens, current } = { tokens, current := current ++ value } := by
  induction spells generalizing current with
  | nil => simp
  | cons first _ ih =>
      rw [List.foldl_append, foldl_read_piece tokens current first, ih, List.append_assoc]

theorem finishToken_eq :
    finishToken { tokens, current } = { tokens := tokens ++ [current].filter (· ≠ []) } := by
  unfold finishToken
  split
  · next empty => simp_all
  · next nonempty => simp [nonempty]

theorem read_space {byte : UInt8} (blank : isSpace byte = true) :
    read { tokens, current } byte = finishToken { tokens, current } := by
  have notBackslash : byte ≠ backslash := by
    rintro rfl
    exact absurd blank (by decide)
  have notQuote : ¬ (byte = singleQuote ∨ byte = doubleQuote) := by
    rintro (rfl | rfl) <;> exact absurd blank (by decide)
  simp [read, notBackslash, notQuote, blank]

theorem foldl_read_blank {gap : Bytes} (blank : Blank gap) :
    gap.foldl read { tokens } = { tokens } := by
  induction gap with
  | nil => rfl
  | cons byte gap ih =>
      have spaces := List.forall_mem_cons.mp blank
      rw [List.foldl_cons, read_space tokens [] spaces.1]
      exact ih spaces.2

theorem foldl_read_gap {gap : Bytes} (blank : Blank gap) (nonempty : gap ≠ []) :
    gap.foldl read { tokens, current } = { tokens := tokens ++ [current].filter (· ≠ []) } := by
  cases gap with
  | nil => exact absurd rfl nonempty
  | cons byte gap =>
      have spaces := List.forall_mem_cons.mp blank
      rw [List.foldl_cons, read_space tokens current spaces.1, finishToken_eq]
      exact foldl_read_blank _ spaces.2

theorem finish_eq :
    finish { tokens, current } = .ok (tokens ++ [current].filter (· ≠ [])) := by
  rw [finish, if_neg (by simp), finishToken_eq]

theorem finish_foldl_words {line : Bytes} {words : List Bytes} (spells : SpellsWords line words) :
    (line.foldl read { tokens }).finish = .ok (tokens ++ words.filter (· ≠ [])) := by
  induction spells generalizing tokens with
  | nil => exact finish_eq tokens []
  | @cons word token gap line words spells _ blank separated rest ih =>
      have split : (token :: words).filter (· ≠ []) =
          [token].filter (· ≠ []) ++ words.filter (· ≠ []) :=
        List.filter_append [token] words
      rw [List.foldl_append, foldl_read_spells tokens [] spells, List.nil_append,
        List.foldl_append, split]
      by_cases last : gap = []
      · -- nothing follows a word that nothing separates from it
        have none : words = [] := not_not.mp fun more => separated more last
        subst none
        cases rest
        rw [last]
        exact (finish_eq tokens token).trans (by simp)
      · rw [foldl_read_gap tokens token blank last, ih, List.append_assoc]

theorem finish_error {state : Tokenizer} (inside : state.escaped = true ∨ state.quote ≠ 0) :
    state.finish = .error (text "unfinished escape or quote in command") := by
  rw [finish, if_pos inside]

theorem eq_of_finish {state : Tokenizer} {finished : List Bytes} (ok : state.finish = .ok finished) :
    state = { tokens := state.tokens, current := state.current } := by
  unfold finish at ok
  split at ok
  · cases ok
  · next closed =>
      obtain ⟨tokens, current, quote, escaped⟩ := state
      simp only [ne_eq, not_or, not_not, Bool.not_eq_true] at closed
      rw [closed.1, closed.2]

end Tokenizer

/-- The texts of the words of a line, without the empty ones. -/
theorem tokenizeCommand_spells {line : Bytes} {words : List Bytes}
    (spells : SpellsCommand line words) :
    tokenizeCommand line = .ok (words.filter (· ≠ [])) := by
  obtain ⟨gap, rest, blank, spells, rfl⟩ := spells
  rw [tokenizeCommand, List.foldl_append, Tokenizer.foldl_read_blank [] blank,
    Tokenizer.finish_foldl_words [] spells, List.nil_append]

/-- A finished line leaves the loop between two pieces. -/
theorem foldl_read_spellsCommand {line : Bytes} {words : List Bytes}
    (spells : SpellsCommand line words) :
    ∃ tokens current, line.foldl Tokenizer.read {} = { tokens, current } :=
  ⟨_, _, Tokenizer.eq_of_finish (tokenizeCommand_spells spells)⟩

theorem tokenizeCommand_unfinished {line : Bytes} (unfinished : Unfinished line) :
    tokenizeCommand line = .error (text "unfinished escape or quote in command") := by
  cases unfinished with
  | escape before =>
      obtain ⟨tokens, current, read⟩ := foldl_read_spellsCommand before
      rw [tokenizeCommand, List.foldl_append, read]
      exact Tokenizer.finish_error (.inl rfl)
  | quote before isQuote run =>
      obtain ⟨tokens, current, read⟩ := foldl_read_spellsCommand before
      rw [tokenizeCommand, List.foldl_append, read, List.foldl_cons,
        Tokenizer.read_quote tokens current isQuote,
        Tokenizer.foldl_read_run tokens current isQuote run]
      exact Tokenizer.finish_error (.inr isQuote.ne_zero)
  | quotedEscape before isQuote run =>
      obtain ⟨tokens, current, read⟩ := foldl_read_spellsCommand before
      rw [tokenizeCommand, List.foldl_append, read, List.foldl_cons,
        Tokenizer.read_quote tokens current isQuote, List.foldl_append,
        Tokenizer.foldl_read_run tokens current isQuote run]
      exact Tokenizer.finish_error (.inl rfl)

/-! ## Every line is read -/

theorem Spells.piece {piece value : Bytes} (is : Piece piece value) : Spells piece value := by
  simpa using Spells.cons is .nil

theorem Spells.append {left leftValue right rightValue : Bytes} (spells : Spells left leftValue)
    (more : Spells right rightValue) : Spells (left ++ right) (leftValue ++ rightValue) := by
  induction spells with
  | nil => exact more
  | cons first _ ih =>
      rw [List.append_assoc, List.append_assoc]
      exact .cons first ih

theorem Piece.ne_nil {piece value : Bytes} (is : Piece piece value) : piece ≠ [] := by
  cases is <;> simp

theorem SpellsWords.eq_nil {line : Bytes} (spells : SpellsWords line []) : line = [] := by
  cases spells
  rfl

/-- A piece behind a word belongs to it, or begins the next one. -/
theorem SpellsWords.append_piece {line : Bytes} {words : List Bytes}
    (spells : SpellsWords line words) {piece value : Bytes} (is : Piece piece value) :
    ∃ more, more ≠ [] ∧ SpellsWords (line ++ piece) more := by
  have alone : SpellsWords piece [value] := by
    simpa using SpellsWords.cons (.piece is) is.ne_nil (List.forall_mem_nil _) (absurd rfl) .nil
  induction spells with
  | nil => exact ⟨[value], by simp, alone⟩
  | @cons word token gap line words spells nonempty blank separated rest ih =>
      by_cases last : gap = []
      · have none : words = [] := not_not.mp fun more => separated more last
        subst none
        refine ⟨[token ++ value], by simp, ?_⟩
        have extended := SpellsWords.cons (spells.append (.piece is))
          (List.append_ne_nil_of_left_ne_nil nonempty piece) (List.forall_mem_nil _) (absurd rfl)
          .nil
        rw [rest.eq_nil, last]
        simpa using extended
      · obtain ⟨more, _, spelt⟩ := ih
        refine ⟨token :: more, by simp, ?_⟩
        rw [List.append_assoc, List.append_assoc]
        exact .cons spells nonempty blank (fun _ => last) spelt

theorem SpellsWords.append_blank {line : Bytes} {words : List Bytes}
    (spells : SpellsWords line words) (some : words ≠ []) {gap : Bytes} (blank : Blank gap) :
    SpellsWords (line ++ gap) words := by
  induction spells with
  | nil => exact absurd rfl some
  | @cons word token first line words spells nonempty firstBlank separated rest ih =>
      rw [List.append_assoc, List.append_assoc]
      by_cases last : words = []
      · subst last
        rw [rest.eq_nil, List.nil_append, ← List.append_nil (first ++ gap)]
        have both : Blank (first ++ gap) := List.forall_mem_append.mpr ⟨firstBlank, blank⟩
        exact .cons spells nonempty both (absurd rfl) .nil
      · exact .cons spells nonempty firstBlank separated (ih last)

theorem SpellsCommand.append_piece {line : Bytes} {words : List Bytes}
    (spells : SpellsCommand line words) {piece value : Bytes} (is : Piece piece value) :
    ∃ more, SpellsCommand (line ++ piece) more := by
  obtain ⟨gap, rest, blank, spells, rfl⟩ := spells
  obtain ⟨more, _, spelt⟩ := spells.append_piece is
  exact ⟨more, gap, _, blank, spelt, List.append_assoc ..⟩

theorem SpellsCommand.append_blank {line : Bytes} {words : List Bytes}
    (spells : SpellsCommand line words) {gap : Bytes} (blank : Blank gap) :
    SpellsCommand (line ++ gap) words := by
  obtain ⟨before, rest, beforeBlank, spells, rfl⟩ := spells
  by_cases some : words = []
  · subst some
    have both : Blank (before ++ gap) := List.forall_mem_append.mpr ⟨beforeBlank, blank⟩
    exact ⟨before ++ gap, [], both, .nil, by simp [spells.eq_nil]⟩
  · exact ⟨before, _, beforeBlank, spells.append_blank some blank, List.append_assoc ..⟩

theorem QuotedRun.append {quote : UInt8} {left leftValue right rightValue : Bytes}
    (run : QuotedRun quote left leftValue) (more : QuotedRun quote right rightValue) :
    QuotedRun quote (left ++ right) (leftValue ++ rightValue) := by
  induction run with
  | nil => exact more
  | plain byte notQuote notBackslash _ ih => exact .plain byte notQuote notBackslash ih
  | escaped byte _ ih => exact .escaped byte ih

theorem SpellsCommand.append_byte {line : Bytes} {words : List Bytes}
    (spells : SpellsCommand line words) (byte : UInt8) :
    (∃ more, SpellsCommand (line ++ [byte]) more) ∨ Unfinished (line ++ [byte]) := by
  by_cases escapes : byte = backslash
  · subst escapes
    exact .inr (.escape spells)
  by_cases quotes : IsQuote byte
  · exact .inr (.quote spells quotes .nil)
  by_cases blank : isSpace byte = true
  · exact .inl ⟨words, spells.append_blank (by simpa [Blank] using blank)⟩
  · exact .inl (spells.append_piece (.bare ⟨by simpa using blank, quotes, escapes⟩))

theorem Unfinished.append_byte {line : Bytes} (unfinished : Unfinished line) (byte : UInt8) :
    (∃ more, SpellsCommand (line ++ [byte]) more) ∨ Unfinished (line ++ [byte]) := by
  cases unfinished with
  | @escape line words before =>
      rw [List.append_assoc]
      exact .inl (before.append_piece (.escaped byte))
  | @quote line spelling value words quote before isQuote run =>
      rw [List.append_assoc, List.cons_append]
      by_cases closes : byte = quote
      · subst closes
        exact .inl (before.append_piece (.quoted isQuote run))
      by_cases escapes : byte = backslash
      · subst escapes
        exact .inr (.quotedEscape before isQuote run)
      · exact .inr (.quote before isQuote (run.append (.plain byte closes escapes .nil)))
  | quotedEscape before isQuote run =>
      rw [List.append_assoc, List.cons_append, List.append_assoc]
      exact .inr (.quote before isQuote (run.append (.escaped byte .nil)))

theorem spellsCommand_or_unfinished (line : Bytes) :
    (∃ words, SpellsCommand line words) ∨ Unfinished line := by
  induction line using List.reverseRecOn with
  | nil => exact .inl ⟨[], [], [], List.forall_mem_nil _, .nil, rfl⟩
  | append_singleton line byte ih =>
      rcases ih with ⟨words, spells⟩ | unfinished
      · exact spells.append_byte byte
      · exact unfinished.append_byte byte

/-- Only empty quotes have no text. -/
theorem Spells.eq_flatMap_of_nil {word value : Bytes} (spells : Spells word value)
    (empty : value = []) :
    ∃ quotes : List UInt8, (∀ quote ∈ quotes, IsQuote quote) ∧
      word = quotes.flatMap fun quote => [quote, quote] := by
  induction spells with
  | nil => exact ⟨[], List.forall_mem_nil _, rfl⟩
  | cons first _ ih =>
      obtain ⟨none, noneLeft⟩ := List.append_eq_nil_iff.mp empty
      obtain ⟨quotes, are, rfl⟩ := ih noneLeft
      cases first with
      | bare => cases none
      | escaped => cases none
      | @quoted quote _ _ isQuote run =>
          subst none
          cases run
          exact ⟨quote :: quotes, List.forall_mem_cons.mpr ⟨isQuote, are⟩, rfl⟩

theorem filter_ne_nil_eq_self_iff (tokens : List Bytes) :
    tokens.filter (· ≠ []) = tokens ↔ [] ∉ tokens := by
  rw [List.filter_eq_self]
  constructor
  · intro nonempty member
    exact of_decide_eq_true (nonempty [] member) rfl
  · intro nonempty token member
    exact decide_eq_true fun empty => nonempty (empty ▸ member)

/-- The tokenizer understands every spelling of a command, and nothing else. -/
theorem tokenizeCommand_spellings (line : Bytes) :
    (∀ tokens, [] ∉ tokens → SpellsCommand line tokens → tokenizeCommand line = .ok tokens) ∧
    (∀ tokens, tokenizeCommand line = .ok tokens →
      ∃ words, SpellsCommand line words ∧ tokens = words.filter (· ≠ [])) ∧
    (∀ word, Spells word [] →
      ∃ quotes : List UInt8, (∀ quote ∈ quotes, IsQuote quote) ∧
        word = quotes.flatMap fun quote => [quote, quote]) ∧
    ∀ what, tokenizeCommand line = .error what ↔
      Unfinished line ∧ what = text "unfinished escape or quote in command" := by
  refine ⟨?_, ?_, fun word spells => spells.eq_flatMap_of_nil rfl, ?_⟩
  · intro tokens nonempty spells
    rw [tokenizeCommand_spells spells, (filter_ne_nil_eq_self_iff tokens).mpr nonempty]
  · intro tokens read
    rcases spellsCommand_or_unfinished line with ⟨words, spells⟩ | unfinished
    · rw [tokenizeCommand_spells spells] at read
      cases read
      exact ⟨words, spells, rfl⟩
    · rw [tokenizeCommand_unfinished unfinished] at read
      cases read
  · intro what
    constructor
    · intro threw
      rcases spellsCommand_or_unfinished line with ⟨words, spells⟩ | unfinished
      · rw [tokenizeCommand_spells spells] at threw
        cases threw
      · rw [tokenizeCommand_unfinished unfinished] at threw
        cases threw
        exact ⟨unfinished, rfl⟩
    · rintro ⟨unfinished, rfl⟩
      exact tokenizeCommand_unfinished unfinished

/-! ## Quoted arguments -/

def escapeByte (byte : UInt8) : Bytes :=
  if byte = doubleQuote ∨ byte = backslash then [backslash, byte] else [byte]

/-- A token in double quotes. -/
def quoteToken (token : Bytes) : Bytes :=
  doubleQuote :: (token.flatMap escapeByte ++ [doubleQuote])

/-- A command line that is to have these fields. -/
def quotedLine (tokens : List Bytes) : Bytes := [space].intercalate (tokens.map quoteToken)

theorem quotedRun_escape (token : Bytes) :
    QuotedRun doubleQuote (token.flatMap escapeByte) token := by
  induction token with
  | nil => exact .nil
  | cons byte token ih =>
      rw [List.flatMap_cons, escapeByte]
      split
      · exact .escaped byte ih
      · next plain =>
          rw [not_or] at plain
          exact .plain byte plain.1 plain.2 ih

theorem spells_quoteToken (token : Bytes) : Spells (quoteToken token) token :=
  .piece (.quoted (.inr rfl) (quotedRun_escape token))

theorem spellsWords_quotedLine (tokens : List Bytes) :
    SpellsWords (quotedLine tokens) tokens := by
  induction tokens with
  | nil => exact .nil
  | cons token tokens ih =>
      have nonempty : quoteToken token ≠ [] := List.cons_ne_nil _ _
      cases tokens with
      | nil =>
          have alone := SpellsWords.cons (spells_quoteToken token) nonempty
            (List.forall_mem_nil _) (absurd rfl) .nil
          simpa [quotedLine] using alone
      | cons next tokens =>
          have blank : Blank [space] := List.forall_mem_singleton.mpr (by decide)
          have joined : quotedLine (token :: next :: tokens) =
              quoteToken token ++ ([space] ++ quotedLine (next :: tokens)) := by
            rw [quotedLine, List.map_cons, List.map_cons, List.intercalate_cons_cons,
              List.append_assoc]
            rfl
          rw [joined]
          exact .cons (spells_quoteToken token) nonempty blank
            (fun _ => List.cons_ne_nil _ _) ih

theorem tokenizeCommand_quotedLine (tokens : List Bytes) :
    tokenizeCommand (quotedLine tokens) = .ok (tokens.filter (· ≠ [])) :=
  tokenizeCommand_spells ⟨[], _, List.forall_mem_nil _, spellsWords_quotedLine tokens, rfl⟩

/-- Quoted arguments keep their positions when none of them is empty. -/
theorem quoted_arguments_kept_iff (tokens : List Bytes) :
    (tokenizeCommand (quotedLine tokens) = .ok tokens ↔ [] ∉ tokens) ∧
    ∀ (requestId : UInt64) (first : Bytes) (rest : List Bytes), tokens = first :: rest →
      first ≠ text "quit" → first ≠ text "exit" →
      (commandRequest requestId (quotedLine tokens) =
          .ok (some ⟨requestId, requestKind, tokens⟩) ↔ [] ∉ tokens) := by
  have read := tokenizeCommand_quotedLine tokens
  have same := filter_ne_nil_eq_self_iff tokens
  generalize tokens.filter (· ≠ []) = kept at read same
  rw [← same, read, Except.ok.injEq]
  refine ⟨Iff.rfl, ?_⟩
  intro requestId first rest are notQuit notExit
  rw [commandRequest, read]
  constructor
  · intro sent
    cases kept with
    | nil => cases sent
    | cons word words =>
        simp only at sent
        split at sent
        · cases sent
        · cases sent
          rfl
  · intro all
    rw [all, are]
    simp [notQuit, notExit]

/-- The empty argument in the middle is lost, and the one behind it moves up. -/
theorem empty_argument_dropped :
    tokenizeCommand (quotedLine [text "submit", text "", text "5"]) =
        .ok [text "submit", text "5"] ∧
      tokenizeCommand (quotedLine [text "submit", text "", text "5"]) ≠
        .ok [text "submit", text "", text "5"] := by
  decide +kernel

end Kronos.Ipc
