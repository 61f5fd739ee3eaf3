import LineCalc.Proofs.Scripts

/-!
A dialogue runs every typed line up to the one that ends it, whatever mistakes the lines have. A script
of the same lines comes to the same, answer by answer, up to the first mistake.
-/

namespace LineCalc

namespace Text

/-- The line ends of a script. -/
def scriptEnds : List (List Char) :=
  [['\n'], ['\r'], ['\r', '\n']]

/-- The line ends of what is typed. -/
def typedEnds : List (List Char) :=
  [['\n']]

/-- A text of lines, each with one of the line ends behind it, which the last one can do without. -/
inductive Holds (ends : List (List Char)) : List String → List Char → Prop where
  | none : Holds ends [] []
  | unended {line : String} (some : line.toList ≠ []) : Holds ends [line] line.toList
  | ended {line : String} {lines : List String} {ending rest : List Char}
      (kind : ending ∈ ends) (holds : Holds ends lines rest) :
      Holds ends (line :: lines) (line.toList ++ (ending ++ rest))

variable {endsLine : Char → Bool} {line ending rest : List Char} {stop : Char}

theorem unifyLineEnds_append (clean : ∀ c ∈ line, c ≠ '\r') (rest : List Char) :
    unifyLineEnds (line ++ rest) = line ++ unifyLineEnds rest := by
  induction line with
  | nil => rfl
  | cons c line ih =>
    obtain ⟨first, others⟩ := List.forall_mem_cons.mp clean
    rw [List.cons_append, unifyLineEnds, ih others, List.cons_append]
    · exact fun _ same _ => first same
    · exact fun same => first same

theorem unifyLineEnds_ending (kind : ending ∈ scriptEnds) (apart : rest.head? ≠ some '\n') :
    unifyLineEnds (ending ++ rest) = '\n' :: unifyLineEnds rest := by
  simp only [scriptEnds, List.mem_cons, List.not_mem_nil, or_false] at kind
  rcases kind with rfl | rfl | rfl
  · exact @unifyLineEnds_append ['\n'] (by simp) rest
  · rw [List.singleton_append, unifyLineEnds]
    rintro later rfl
    exact apart rfl
  · rfl

theorem cutLines_unended (clean : ∀ c ∈ line, endsLine c = false) (some : line ≠ []) :
    cutLines endsLine line = [line] := by
  induction line with
  | nil => exact absurd rfl some
  | cons c line ih =>
    obtain ⟨first, others⟩ := List.forall_mem_cons.mp clean
    rw [cutLines, if_neg (by simp [first])]
    cases line with
    | nil => rfl
    | cons next line => rw [ih others (List.cons_ne_nil _ _)]

theorem cutLines_ended (clean : ∀ c ∈ line, endsLine c = false) (ends : endsLine stop = true)
    (rest : List Char) :
    cutLines endsLine (line ++ stop :: rest) = line :: cutLines endsLine rest := by
  induction line with
  | nil => rw [List.nil_append, cutLines, if_pos ends]
  | cons c line ih =>
    obtain ⟨first, others⟩ := List.forall_mem_cons.mp clean
    rw [List.cons_append, cutLines, if_neg (by simp [first]), ih others]

/-- A line that holds something, and nothing that could end it. -/
def IsSingle (line : String) : Prop :=
  line.toList ≠ [] ∧ ∀ c ∈ line.toList, endsScriptLine c = false

theorem endsScriptLine_feed : endsScriptLine '\n' = true := by
  decide

theorem endsScriptLine_return : endsScriptLine '\r' = true := by
  decide

theorem IsSingle.ne_of_ends {line : String} (single : IsSingle line) (ends : endsScriptLine stop = true) :
    ∀ c ∈ line.toList, c ≠ stop := by
  rintro c member rfl
  exact Bool.noConfusion (ends.symm.trans (single.2 c member))

theorem Holds.head? {ends : List (List Char)} {lines : List String} {text : List Char}
    (holds : Holds ends lines text) (single : ∀ line ∈ lines, IsSingle line) :
    text.head? ≠ some '\n' := by
  cases holds with
  | none => simp
  | @unended line some =>
    intro first
    exact (single line List.mem_cons_self).ne_of_ends endsScriptLine_feed _
      (List.mem_of_head? first) rfl
  | @ended line lines ending rest kind holds =>
    have own := single line List.mem_cons_self
    rw [List.head?_append_of_ne_nil _ own.1]
    exact fun first =>
      own.ne_of_ends endsScriptLine_feed _ (List.mem_of_head? first) rfl

/-- Unifying the line ends leaves the lines as they are. -/
theorem Holds.unified {lines : List String} {text : List Char} (holds : Holds scriptEnds lines text)
    (single : ∀ line ∈ lines, IsSingle line) : Holds typedEnds lines (unifyLineEnds text) := by
  induction holds with
  | none => exact .none
  | @unended line some =>
    have own := single line List.mem_cons_self
    have whole := unifyLineEnds_append (own.ne_of_ends endsScriptLine_return) []
    rw [List.append_nil, unifyLineEnds, List.append_nil] at whole
    rw [whole]
    exact .unended some
  | @ended line lines ending rest kind holds ih =>
    obtain ⟨own, others⟩ := List.forall_mem_cons.mp single
    rw [unifyLineEnds_append (own.ne_of_ends endsScriptLine_return),
      unifyLineEnds_ending kind (holds.head? others)]
    exact .ended List.mem_cons_self (ih others)

/-- Cutting a text at line feeds, and maybe at other characters that its lines do not have, gives back the
lines that it is made of. -/
theorem Holds.cutLines {lines : List String} {text : List Char} (holds : Holds typedEnds lines text)
    (feed : endsLine '\n' = true) (clean : ∀ line ∈ lines, ∀ c ∈ line.toList, endsLine c = false) :
    (cutLines endsLine text).map String.ofList = lines := by
  induction holds with
  | none => rfl
  | @unended line some =>
    rw [cutLines_unended (clean line List.mem_cons_self) some]
    simp
  | @ended line lines ending rest kind holds ih =>
    obtain ⟨own, others⟩ := List.forall_mem_cons.mp clean
    obtain rfl := List.mem_singleton.mp kind
    rw [List.singleton_append, cutLines_ended own feed, List.map_cons, ih others, String.ofList_toList]

theorem Holds.scriptLines {lines : List String} {text : String}
    (holds : Holds scriptEnds lines text.toList) (single : ∀ line ∈ lines, IsSingle line) :
    scriptLines text = lines :=
  (holds.unified single).cutLines endsScriptLine_feed fun line member => (single line member).2

theorem Holds.typedLines {lines : List String} {text : String}
    (holds : Holds typedEnds lines text.toList) (clean : ∀ line ∈ lines, '\n' ∉ line.toList) :
    typedLines text = lines := by
  refine holds.cutLines rfl fun line member c inside => ?_
  rw [beq_eq_false_iff_ne]
  rintro rfl
  exact clean line member inside

theorem Holds.cons {ends : List (List Char)} {line text : List Char} {lines : List String}
    (holds : Holds ends (String.ofList line :: lines) text) (c : Char) :
    Holds ends (String.ofList (c :: line) :: lines) (c :: text) := by
  cases holds with
  | unended some =>
    have longer := @Holds.unended ends (String.ofList (c :: line)) (by simp)
    simpa using longer
  | @ended _ _ ending rest kind holds =>
    have longer := @Holds.ended ends (String.ofList (c :: line)) _ _ _ kind holds
    simpa using longer

/-- Any text is made of the lines that are cut off it at line feeds, and no line has a line feed. -/
theorem holds_typedLines (text : String) : Holds typedEnds (typedLines text) text.toList ∧
    ∀ line ∈ typedLines text, '\n' ∉ line.toList := by
  unfold typedLines
  induction text.toList with
  | nil => exact ⟨.none, List.forall_mem_nil _⟩
  | cons c rest ih =>
    obtain ⟨holds, clean⟩ := ih
    by_cases feed : c = '\n'
    · rw [Text.cutLines, if_pos (by simp [feed]), List.map_cons, feed]
      exact ⟨.ended List.mem_cons_self holds, List.forall_mem_cons.mpr ⟨by simp, clean⟩⟩
    · rw [Text.cutLines, if_neg (by simp [feed])]
      cases found : Text.cutLines (· == '\n') rest with
      | nil =>
        rw [found] at holds
        cases holds
        have single := @Holds.unended typedEnds (String.ofList [c]) (by simp)
        exact ⟨by simpa using single, List.forall_mem_singleton.mpr (by simpa using Ne.symm feed)⟩
      | cons line lines =>
        rw [found] at holds clean
        obtain ⟨own, others⟩ := List.forall_mem_cons.mp clean
        refine ⟨holds.cons c, List.forall_mem_cons.mpr ⟨?_, others⟩⟩
        rw [String.toList_ofList] at own ⊢
        exact List.not_mem_cons_of_ne_of_not_mem (Ne.symm feed) own

/-- A carriage return stays in its line. -/
example : typedLines "1\x0d2\n" = ["1\x0d2"] := by
  decide

end Text

namespace Session

variable {session : Session} {lines ran front : List String} {status : Nat}

theorem Passes.shorter (passes : session.Passes lines) (first : front <+: lines) :
    session.Passes front := by
  obtain ⟨rest, rfl⟩ := first
  intro earlier line later parts
  exact passes earlier line (later ++ rest) (by rw [parts, List.append_assoc, List.cons_append])

/-- Of the lines that are run, only the last one can stop. -/
theorem Stretch.passes (stretch : session.Stretch lines ran status) (first : front <+: ran) :
    session.Passes front.dropLast := by
  have shorter : front.dropLast <+: ran.dropLast := by
    apply List.prefix_of_prefix_length_le ((List.dropLast_prefix _).trans first)
      (List.dropLast_prefix _)
    have length := first.length_le
    simp only [List.length_dropLast]
    omega
  refine Passes.shorter ?_ shorter
  cases stretch with
  | through passes => exact passes.shorter (List.dropLast_prefix _)
  | stopped passes stops => rwa [List.dropLast_concat]

theorem Stretch.exists_rest (stretch : session.Stretch lines ran status) :
    ∃ rest, lines = ran ++ rest := by
  cases stretch with
  | through passes => exact ⟨[], (List.append_nil _).symm⟩
  | @stopped earlier later line error passes stops => exact ⟨later, by simp⟩

end Session

namespace Reply

variable {session : Session}

/-- A row in which only the last line may stop is run whole. -/
theorem ofLines_session {lines : List String} (passes : session.Passes lines.dropLast) :
    (ofLines lines session).session = session.afterAll lines := by
  induction lines generalizing session with
  | nil => rfl
  | cons line later ih =>
    cases later with
    | nil =>
      rw [ofLines]
      exact (apply_ite Reply.session _ _ _).trans (ite_self _)
    | cons next later =>
      obtain ⟨clean, passes⟩ := Session.passes_cons.mp passes
      rw [ofLines_goes clean]
      exact ih passes

/-- A dialogue runs the lines before the one that ends it, and asks for one line more. -/
theorem ofDialogue_recounts (lines : List String) (session : Session) :
    (ofDialogue lines session).Recounts (promptText ++ answerLead)
      (promptText ++ if lines.any isExit then "" else "\n") session
      (lines.takeWhile fun line => !isExit line) := by
  induction lines generalizing session with
  | nil => exact ⟨rfl, rfl, rfl⟩
  | cons line later ih =>
    rw [ofDialogue, List.any_cons]
    cases exit : isExit line with
    | true =>
      rw [if_pos rfl, List.takeWhile_cons_of_neg (by simp [exit])]
      exact ⟨rfl, rfl, rfl⟩
    | false =>
      rw [if_neg Bool.false_ne_true, List.takeWhile_cons_of_pos (by simp [exit]), Bool.false_or]
      exact .cons rfl (ih _)

theorem ofDialogue_whole {lines : List String} (goesOn : ∀ line ∈ lines, isExit line = false)
    (session : Session) :
    (ofDialogue lines session).Recounts (promptText ++ answerLead) (promptText ++ "\n") session
      lines := by
  have recounts := ofDialogue_recounts lines session
  rw [List.takeWhile_eq_self_iff.mpr fun line member => by simp [goesOn line member],
    List.any_eq_false.mpr fun line member => by simp [goesOn line member]] at recounts
  exact recounts

theorem texts_append (first second : List String) (session : Session) :
    texts (first ++ second) session = texts first session ++ texts second (session.afterAll first) := by
  induction first generalizing session with
  | nil => rfl
  | cons line later ih =>
    rw [List.cons_append, texts, ih, texts, List.cons_append]
    rfl

/-- A dialogue about any text ends well. It cuts the text at its line feeds, at nothing else, and runs the
lines before the one that ends it, all of them and in order, whether they have mistakes or not. Lines that
no text would cut, that are not blank and do not end a dialogue are answered alike when they are typed,
with line feeds behind them, and when they are a script, with line ends of any kind, and leave the same
sessions, up to the first one that stops; there the script ends. -/
theorem ofDialogue_isolates (typed : String) (session : Session) :
    let lines := Text.typedLines typed
    let dialogue := ofDialogue lines session
    (Text.Holds Text.typedEnds lines typed.toList ∧ ∀ line ∈ lines, '\n' ∉ line.toList) ∧
    dialogue.Recounts (promptText ++ answerLead)
      (promptText ++ if lines.any isExit then "" else "\n") session
      (lines.takeWhile fun line => !isExit line) ∧
    (∀ arguments read verbose, session = .empty →
      CommandLine.Request.ofArguments arguments = .ok (.run [] verbose) →
      CommandLine.run arguments read typed =
        .ok ⟨0, dialogue.text, CommandLine.logText verbose dialogue.log⟩) ∧
    ∀ (entries : List String) (script path : String) (read : String → Option String),
      (∀ line ∈ entries, Text.isBlankLine line = false ∧
        (∀ c ∈ line.toList, Text.endsScriptLine c = false) ∧ isExit line = false) →
      Text.Holds Text.typedEnds entries typed.toList →
      Text.Holds Text.scriptEnds entries script.toList → read path = some script →
      ∃ scripted ran rest, entries = ran ++ rest ∧
        ofScripts read [path] session = .ok scripted ∧
        session.Stretch entries ran scripted.status ∧
        scripted.Recounts answerLead "" session ran ∧
        dialogue.Recounts (promptText ++ answerLead) (promptText ++ "\n") session entries ∧
        texts entries session = texts ran session ++ texts rest scripted.session ∧
        (∀ front, front <+: ran →
          (ofLines front session).session = session.afterAll front ∧
          (ofDialogue front session).session = session.afterAll front) ∧
        dialogue.session = scripted.session.afterAll rest := by
  intro lines dialogue
  refine ⟨Text.holds_typedLines typed, ofDialogue_recounts lines session, ?_, ?_⟩
  · intro arguments read verbose fresh asked
    subst fresh
    rw [CommandLine.run, asked]
  · intro entries script path read fit heldTyped heldScript found
    have single : ∀ line ∈ entries, Text.IsSingle line := by
      intro line member
      obtain ⟨shown, free, -⟩ := fit line member
      refine ⟨fun none => ?_, free⟩
      rw [Text.isBlankLine, none] at shown
      cases shown
    have goesOn : ∀ line ∈ entries, isExit line = false := fun line member => (fit line member).2.2
    have typedSame : lines = entries := heldTyped.typedLines fun line member feed =>
      (single line member).ne_of_ends Text.endsScriptLine_feed _ feed rfl
    have scriptSame : Text.entries script = entries := by
      rw [Text.entries, heldScript.scriptLines single, List.filter_eq_self]
      intro line member
      rw [(fit line member).1]
      rfl
    obtain ⟨scripted, ran, answered, -, stretch, recounts⟩ :=
      ofScripts_recounts (.cons found .nil) session
    rw [List.flatMap_cons, List.flatMap_nil, List.append_nil, scriptSame] at stretch
    obtain ⟨rest, parts⟩ := stretch.exists_rest
    have whole : dialogue.Recounts (promptText ++ answerLead) (promptText ++ "\n") session entries := by
      rw [← typedSame] at goesOn ⊢
      exact ofDialogue_whole goesOn session
    refine ⟨scripted, ran, rest, parts, answered, stretch, recounts, whole, ?_, ?_, ?_⟩
    · rw [parts, texts_append, recounts.left]
    · intro front first
      have kept : ∀ line ∈ front, isExit line = false := fun line member =>
        goesOn line (parts ▸ List.mem_append_left rest (first.subset member))
      exact ⟨ofLines_session (stretch.passes first), (ofDialogue_whole kept session).left⟩
    · rw [whole.left, recounts.left, parts]
      exact List.foldl_append

/-- Three lines, the second of which stops, typed and as a script. -/
theorem ofDialogue_isolates_unassigned :
    let dialogue := ofDialogue (Text.typedLines "x=1\ny\n%x") .empty
    CommandLine.run ["-v"] (fun _ => none) "x=1\ny\n%x" =
      .ok ⟨0, dialogue.text, CommandLine.logText true dialogue.log⟩ ∧
    ∃ scripted ran rest, ["x=1", "y", "%x"] = ran ++ rest ∧
      ofScripts (fun _ => some "x=1\r\ny\r%x\r\n") ["a"] .empty = .ok scripted ∧
      Session.empty.Stretch ["x=1", "y", "%x"] ran scripted.status ∧
      texts ["x=1", "y", "%x"] .empty = texts ran .empty ++ texts rest scripted.session ∧
      dialogue.session = scripted.session.afterAll rest := by
  intro dialogue
  obtain ⟨-, -, program, alike⟩ := ofDialogue_isolates "x=1\ny\n%x" .empty
  have heldTyped : Text.Holds Text.typedEnds ["x=1", "y", "%x"] "x=1\ny\n%x".toList := by
    have parts : "x=1\ny\n%x".toList =
        "x=1".toList ++ (['\n'] ++ ("y".toList ++ (['\n'] ++ "%x".toList))) := by decide +kernel
    rw [parts]
    exact .ended (by decide) (.ended (by decide) (.unended (by simp)))
  have heldScript : Text.Holds Text.scriptEnds ["x=1", "y", "%x"] "x=1\r\ny\r%x\r\n".toList := by
    have parts : "x=1\r\ny\r%x\r\n".toList = "x=1".toList ++ (['\r', '\n'] ++
        ("y".toList ++ (['\r'] ++ ("%x".toList ++ (['\r', '\n'] ++ []))))) := by decide +kernel
    rw [parts]
    exact .ended (by decide) (.ended (by decide) (.ended (by decide) .none))
  have shown : ∀ line ∈ ["x=1", "y", "%x"], Text.isBlankLine line = false ∧ isExit line = false := by
    decide +kernel
  have free : ∀ line ∈ ["x=1", "y", "%x"],
      line.toList.all (fun c => !Text.endsScriptLine c) = true := by
    decide +kernel
  have fit : ∀ line ∈ ["x=1", "y", "%x"], Text.isBlankLine line = false ∧
      (∀ c ∈ line.toList, Text.endsScriptLine c = false) ∧ isExit line = false := by
    intro line member
    refine ⟨(shown line member).1, fun c inside => ?_, (shown line member).2⟩
    simpa using List.all_eq_true.mp (free line member) c inside
  obtain ⟨scripted, ran, rest, parts, answered, stretch, -, -, same, -, left⟩ :=
    alike ["x=1", "y", "%x"] "x=1\r\ny\r%x\r\n" "a" (fun _ => some "x=1\r\ny\r%x\r\n")
      fit heldTyped heldScript rfl
  exact ⟨program ["-v"] _ true rfl (by decide +kernel), scripted, ran, rest, parts, answered, stretch,
    same, left⟩

end Reply

end LineCalc
