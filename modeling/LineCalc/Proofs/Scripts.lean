import LineCalc.CommandLine.Program
import LineCalc.Proofs.Journal
import LineCalc.Proofs.Location

/-!
Scripts run their lines one by one, each in the session that the lines before have left, up to the first
mistake. What they come to depends on the row of their lines without the blank ones, however the row is
spread over files.
-/

namespace LineCalc

/-- The lines of a script that are run. -/
def Text.entries (text : String) : List String :=
  (scriptLines text).filter fun line => !isBlankLine line

namespace Session

variable {session : Session} {line : String} {lines later ran : List String} {status : Nat}

/-- No line stops, each run in the session that those before it have left. -/
def Passes (session : Session) (lines : List String) : Prop :=
  ∀ earlier line later, lines = earlier ++ line :: later →
    ((session.afterAll earlier).run line).fault = none

/-- The lines that are run of a row that is run in order up to its first mistake, and the status that
tells whether there is one. -/
inductive Stretch (session : Session) : List String → List String → Nat → Prop where
  | through {lines : List String} (passes : session.Passes lines) : Stretch session lines lines 0
  | stopped {earlier later : List String} {line : String} {error : CalcError}
      (passes : session.Passes earlier)
      (stops : ((session.afterAll earlier).run line).fault = some (.line error)) :
      Stretch session (earlier ++ line :: later) (earlier ++ [line]) 1

theorem passes_nil (session : Session) : session.Passes [] := by
  intro earlier line later parts
  simp at parts

theorem passes_cons : session.Passes (line :: later) ↔
    (session.run line).fault = none ∧ (session.run line).state.Passes later := by
  constructor
  · intro passes
    refine ⟨passes [] line later rfl, fun earlier other rest parts => ?_⟩
    exact passes (line :: earlier) other rest (congrArg (List.cons line) parts)
  · rintro ⟨clean, passes⟩ earlier other rest parts
    rcases earlier with _ | ⟨first, others⟩
    · obtain ⟨rfl, -⟩ := List.cons.inj parts
      exact clean
    · obtain ⟨rfl, same⟩ := List.cons.inj parts
      exact passes others other rest same

theorem Stretch.cons (clean : (session.run line).fault = none)
    (stretch : (session.run line).state.Stretch later ran status) :
    session.Stretch (line :: later) (line :: ran) status := by
  cases stretch with
  | through passes => exact .through (passes_cons.mpr ⟨clean, passes⟩)
  | stopped passes stops => exact .stopped (passes_cons.mpr ⟨clean, passes⟩) stops

theorem fault_line (session : Session) (line : String) {fault : Fault}
    (stopped : (session.run line).fault = some fault) : ∃ error, fault = .line error := by
  obtain ⟨cause, span, rfl, -⟩ := (LineRun.feedAll_points session line).fault stopped
  exact ⟨⟨cause, span⟩, rfl⟩

theorem Stretch.status_iff (stretch : session.Stretch lines ran status) :
    status = 1 ↔ ∃ earlier line later error, lines = earlier ++ line :: later ∧
      ((session.afterAll earlier).run line).fault = some (.line error) := by
  cases stretch with
  | through passes =>
    refine iff_of_false (by simp) ?_
    rintro ⟨earlier, line, later, error, parts, stops⟩
    rw [passes earlier line later parts] at stops
    cases stops
  | stopped passes stops => exact iff_of_true rfl ⟨_, _, _, _, rfl, stops⟩

theorem run_blank (blank : Text.isBlankLine line = true) (session : Session) :
    session.run line = ⟨session, [.running line], none⟩ := by
  have cut : Scan.ofLine line = ⟨[], none⟩ := by
    have gap := Scan.ofChars_gap (List.all_eq_true.mp blank) 0 []
    rw [List.append_nil, Scan.ofChars_nil] at gap
    exact gap
  rw [run, cut]
  rfl

end Session

namespace Reply

variable {session : Session} {line : String}

/-- The status that a program ends with behind its last line. -/
def status (reply : Reply) : Nat :=
  if reply.accepted then 0 else 1

/-- What is written about each of the lines, in the session that those before it have left. -/
def texts : List String → Session → List String
  | [], _ => []
  | line :: later, session => (ofLine line session).text :: texts later (session.run line).state

/-- Texts one after the other, with the same text in front of each. -/
def joined (lead : String) : List String → String
  | [] => ""
  | text :: later => lead ++ text ++ joined lead later

def records (reply : Reply) : List LogRecord :=
  reply.log.filter fun record => record.level = .debug

/-- The reply is that to these lines, each of which is run just once, in order. -/
structure Recounts (lead ending : String) (session : Session) (ran : List String) (reply : Reply) :
    Prop where
  left : reply.session = session.afterAll ran
  written : reply.text = joined lead (texts ran session) ++ ending
  told : reply.records = Event.log (session.history ran)

end Reply

theorem Event.filter_log (events : List Event) :
    ((log events).filter fun record => record.level = .debug) = log events := by
  apply List.filter_eq_self.mpr
  intro record member
  obtain ⟨event, -, told⟩ := List.mem_filterMap.mp member
  cases event with
  | printed value => cases told
  | running | interned | executing | assigned =>
    cases told
    rfl

namespace Reply

variable {session : Session} {line : String} {lead ending : String} {ran : List String}

theorem Recounts.cons {first rest : Reply} (answered : first = (ofLine line session).led lead)
    (recounts : rest.Recounts lead ending (session.run line).state ran) :
    (first.following rest).Recounts lead ending session (line :: ran) := by
  subst answered
  refine ⟨recounts.left, ?_, ?_⟩
  · simp only [following, led, recounts.written, texts, joined, String.append_assoc]
  · have own : Event.log (session.history (line :: ran)) =
        Event.log (session.run line).events ++ rest.records := by
      rw [recounts.told, Session.history, Event.log, List.filterMap_append]
      rfl
    rw [own, ← Event.filter_log]
    exact List.filter_append _ _

theorem ofLines_goes (clean : (session.run line).fault = none) (later : List String) :
    ofLines (line :: later) session =
      ((ofLine line session).led answerLead).following (ofLines later (session.run line).state) := by
  rw [ofLines]
  exact if_pos (by simp [led, ofLine, clean])

theorem ofLines_stops {fault : Fault} (stops : (session.run line).fault = some fault)
    (later : List String) :
    ofLines (line :: later) session = (ofLine line session).led answerLead := by
  rw [ofLines]
  exact if_neg (by simp [led, ofLine, stops])

theorem ofLines_recounts (lines : List String) (session : Session) :
    ∃ ran, session.Stretch lines ran (ofLines lines session).status ∧
      (ofLines lines session).Recounts answerLead "" session ran := by
  induction lines generalizing session with
  | nil => exact ⟨[], .through session.passes_nil, rfl, rfl, rfl⟩
  | cons line later ih =>
    cases found : (session.run line).fault with
    | none =>
      obtain ⟨ran, stretch, recounts⟩ := ih (session.run line).state
      rw [ofLines_goes found]
      exact ⟨line :: ran, stretch.cons found, .cons rfl recounts⟩
    | some fault =>
      obtain ⟨error, rfl⟩ := session.fault_line line found
      rw [ofLines_stops found]
      refine ⟨[line], ?_, rfl, ?_, ?_⟩
      · have refused : ((ofLine line session).led answerLead).status = 1 := by
          simp [status, led, ofLine, found]
        rw [refused]
        exact @Session.Stretch.stopped session [] later line error session.passes_nil found
      · simp [led, texts, joined]
      · rw [Session.history, Session.history, List.append_nil]
        exact Event.filter_log _

/-! Where a row of lines is cut has no part in what it comes to. -/

/-- The reply with nothing in its log but what lines do. -/
def withoutRecords (reply : Reply) : Reply :=
  { reply with log := reply.records }

theorem following_assoc (first second third : Reply) :
    (first.following second).following third = first.following (second.following third) := by
  simp [following, String.append_assoc, List.append_assoc]

theorem withoutRecords_following (first second : Reply) :
    (first.following second).withoutRecords =
      first.withoutRecords.following second.withoutRecords := by
  simp [following, withoutRecords, records]

theorem withoutRecords_ofLines (lines : List String) (session : Session) :
    (ofLines lines session).withoutRecords = ofLines lines session := by
  induction lines generalizing session with
  | nil => rfl
  | cons line later ih =>
    have own : ((ofLine line session).led answerLead).withoutRecords =
        (ofLine line session).led answerLead := by
      rw [withoutRecords, records]
      exact congrArg (fun log => { (ofLine line session).led answerLead with log := log })
        (Event.filter_log _)
    rw [ofLines]
    split
    next => rw [withoutRecords_following, own, ih]
    next => exact own

theorem ofLines_append (first second : List String) (session : Session) :
    ofLines (first ++ second) session =
      if (ofLines first session).accepted then
        (ofLines first session).following (ofLines second (ofLines first session).session)
      else ofLines first session := by
  induction first generalizing session with
  | nil => simp [ofLines, silent, following]
  | cons line later ih =>
    rw [List.cons_append, ofLines, ofLines]
    split
    next =>
      rw [ih, following_assoc]
      split
      next accepted => exact (if_pos accepted).symm
      next refused => exact (if_neg refused).symm
    next => rfl

theorem ofScripts_entries {read : String → Option String} {paths texts : List String}
    (found : List.Forall₂ (fun path text => read path = some text) paths texts)
    (session : Session) :
    ∃ reply, ofScripts read paths session = .ok reply ∧
      reply.withoutRecords = ofLines (texts.flatMap Text.entries) session := by
  induction found generalizing session with
  | nil => exact ⟨silent session, rfl, rfl⟩
  | @cons path text paths texts found rest ih =>
    have own : ({ ofScript text session with
        log := scriptRecord path :: (ofScript text session).log } : Reply).withoutRecords =
          ofLines (Text.entries text) session :=
      withoutRecords_ofLines (Text.entries text) session
    rw [List.flatMap_cons, ofLines_append, ofScripts, found]
    simp only
    split
    next accepted =>
      obtain ⟨later, answered, same⟩ := ih (ofScript text session).session
      rw [answered]
      refine ⟨_, rfl, ?_⟩
      rw [withoutRecords_following, own, same]
      exact (if_pos accepted).symm
    next refused =>
      refine ⟨_, rfl, ?_⟩
      rw [own]
      exact (if_neg refused).symm

/-- Scripts run the row of their lines that are not blank up to the first mistake. -/
theorem ofScripts_recounts {read : String → Option String} {paths texts : List String}
    (found : List.Forall₂ (fun path text => read path = some text) paths texts)
    (session : Session) :
    ∃ reply ran, ofScripts read paths session = .ok reply ∧
      reply.withoutRecords = ofLines (texts.flatMap Text.entries) session ∧
      session.Stretch (texts.flatMap Text.entries) ran reply.status ∧
      reply.Recounts answerLead "" session ran := by
  obtain ⟨reply, answered, bare⟩ := ofScripts_entries found session
  obtain ⟨ran, stretch, recounts⟩ := ofLines_recounts (texts.flatMap Text.entries) session
  rw [← bare] at stretch recounts
  refine ⟨reply, ran, answered, bare, stretch, recounts.left, recounts.written, ?_⟩
  rw [← recounts.told, withoutRecords, records, records, List.filter_filter]
  simp only [Bool.and_self]

/-- Blank lines add nothing but their own answers. -/
theorem ofLines_filter (lines : List String) (session : Session) :
    (ofLines lines session).session =
        (ofLines (lines.filter fun line => !Text.isBlankLine line) session).session ∧
      (ofLines lines session).status =
        (ofLines (lines.filter fun line => !Text.isBlankLine line) session).status := by
  induction lines generalizing session with
  | nil => exact ⟨rfl, rfl⟩
  | cons line later ih =>
    cases blank : Text.isBlankLine line with
    | true =>
      have nothing := Session.run_blank blank session
      have goes := ofLines_goes (congrArg Outcome.fault nothing) later
      rw [nothing] at goes
      rw [List.filter_cons_of_neg (by simp [blank]), goes]
      exact ih session
    | false =>
      rw [List.filter_cons_of_pos (by simp [blank]), ofLines, ofLines]
      split
      next => exact ih _
      next => exact ⟨rfl, rfl⟩

/-- Scripts come to what the row of their lines that are not blank comes to. The status is one exactly
if a line of the row stops; nothing is done and nothing written behind the first that does, and all that
was done before stays. The blank lines would have changed neither the session nor the status. -/
theorem ofScripts_determined {read readToo : String → Option String}
    {paths pathsToo texts textsToo : List String}
    (found : List.Forall₂ (fun path text => read path = some text) paths texts)
    (foundToo : List.Forall₂ (fun path text => readToo path = some text) pathsToo textsToo)
    (same : texts.flatMap Text.entries = textsToo.flatMap Text.entries) (session : Session) :
    let entries := texts.flatMap Text.entries
    let unskipped := ofLines (texts.flatMap Text.scriptLines) session
    ∃ reply replyToo ran,
      ofScripts read paths session = .ok reply ∧
      ofScripts readToo pathsToo session = .ok replyToo ∧
      (replyToo.status = reply.status ∧ replyToo.text = reply.text ∧
        replyToo.session = reply.session) ∧
      session.Stretch entries ran reply.status ∧
      reply.Recounts answerLead "" session ran ∧
      (reply.status = 1 ↔ ∃ earlier line later error, entries = earlier ++ line :: later ∧
        ((session.afterAll earlier).run line).fault = some (.line error)) ∧
      (reply.status ≠ 1 → reply.status = 0) ∧
      (unskipped.session = reply.session ∧ unskipped.status = reply.status) ∧
      ∀ arguments scripts verbose typed, session = .empty → scripts ≠ [] →
        CommandLine.Request.ofArguments arguments = .ok (.run scripts verbose) →
        scripts.map CommandLine.Path.normalize = paths →
        CommandLine.run arguments read typed =
          .ok ⟨reply.status, reply.text, CommandLine.logText verbose reply.log⟩ := by
  intro entries unskipped
  obtain ⟨reply, ran, answered, bare, stretch, recounts⟩ := ofScripts_recounts found session
  obtain ⟨replyToo, answeredToo, bareToo⟩ := ofScripts_entries foundToo session
  have alike : replyToo.withoutRecords = reply.withoutRecords := by rw [bareToo, bare, same]
  have skipped : unskipped.session = reply.session ∧ unskipped.status = reply.status := by
    have filtered := ofLines_filter (texts.flatMap Text.scriptLines) session
    rw [List.filter_flatMap] at filtered
    change _ = (ofLines entries session).session ∧ _ = (ofLines entries session).status at filtered
    rw [← bare] at filtered
    exact filtered
  refine ⟨reply, replyToo, ran, answered, answeredToo, ⟨?_, ?_, ?_⟩, stretch, recounts,
    stretch.status_iff, ?_, skipped, ?_⟩
  · exact (congrArg Reply.status alike :)
  · exact (congrArg Reply.text alike :)
  · exact (congrArg Reply.session alike :)
  · intro refused
    cases accepted : reply.accepted with
    | true => rw [status, accepted]; rfl
    | false => exact absurd (by rw [status, accepted]; rfl) refused
  · intro arguments scripts verbose typed fresh some asked spelled
    subst fresh
    rw [← spelled] at answered
    cases scripts with
    | nil => exact absurd rfl some
    | cons script others =>
      rw [CommandLine.run, asked]
      simp only [answered, Except.map, status]

/-- Two scripts, and one with other line ends and other blank lines. The third line stops, and the fourth
is not run. -/
theorem ofScripts_determined_unassigned :
    let read := fun path => some (if path = "a" then "x=1\n\n%x\n" else "y\nz=1")
    ∃ reply replyToo ran,
      ofScripts read ["a", "b"] .empty = .ok reply ∧
      ofScripts (fun _ => some "x=1\r\n%x\r \t\ny\nz=1\n") ["c"] .empty = .ok replyToo ∧
      (replyToo.status = reply.status ∧ replyToo.text = reply.text ∧
        replyToo.session = reply.session) ∧
      Session.empty.Stretch ["x=1", "%x", "y", "z=1"] ran 1 ∧
      reply.Recounts answerLead "" .empty ran ∧
      CommandLine.run ["-v", "./a", "b"] read "" =
        .ok ⟨1, reply.text, CommandLine.logText true reply.log⟩ := by
  intro read
  obtain ⟨reply, replyToo, ran, answered, answeredToo, alike, stretch, recounts, status, -, -, program⟩ :=
    @ofScripts_determined read (fun _ => some "x=1\r\n%x\r \t\ny\nz=1\n") ["a", "b"] ["c"] _ _
      (.cons rfl (.cons rfl .nil)) (.cons rfl .nil) (by decide +kernel) .empty
  have stops : ((Session.empty.afterAll ["x=1", "%x"]).run "y").fault.isSome = true := by
    decide +kernel
  obtain ⟨fault, found⟩ := Option.isSome_iff_exists.mp stops
  obtain ⟨error, rfl⟩ := Session.fault_line _ _ found
  have refused : reply.status = 1 := status.mpr ⟨["x=1", "%x"], "y", ["z=1"], error, rfl, found⟩
  rw [refused] at stretch
  refine ⟨reply, replyToo, ran, answered, answeredToo, alike, stretch, recounts, ?_⟩
  rw [← refused]
  exact program _ ["./a", "b"] true "" rfl (List.cons_ne_nil _ _) (by decide +kernel)
    (by decide +kernel)

end Reply

end LineCalc
