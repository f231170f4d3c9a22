import Winding.Proofs.Machine.Resumption
import Winding.Proofs.Machine.Wording
import Winding.Proofs.Station.Runs
import Winding.Station.Host

/-!
# One reply for each line

A connection has every line answered that it reads: a blank one with nothing, and any other with one
reply and a newline after it (`Host.answer`), while other operators, the controller and the files do
what they like (`Host.Event`). When everything is named on one line in the configuration, a reply is
on one line, unless it refuses a recipe in the words of a calibration file that are not
(`Station.replies`).
-/

namespace Winding

open Operator

variable {σ R : Type} [Scalar R]

/-! ## Starting -/

/-- What the configuration names is named on one line: the data directory, the frame and the
calibration files. -/
structure Configuration.Inline (c : Configuration R) (d : DataDirectory) : Prop where
  directory : OneLine d.root
  frame : OneLine c.machine.apaName
  calibrations : ∀ p ∈ c.calibrationPaths d, OneLine p.2

namespace Machine

variable {m m' : Machine R}

theorem make_inline {c : Configuration R} {files files' : FileStore} {d : DataDirectory}
    {exchange : Exchange R} {now : Timestamp} (names : c.Inline d) (status : exchange.status.Inline)
    (h : Machine.make c files d exchange now = (.ok m, files')) : m.Inline := by
  obtain ⟨x, records, journal, made, read, -, rfl⟩ := make_eq_ok h
  obtain ⟨context, layers, rfl⟩ := executorOf_eq_ok made
  obtain ⟨r, rfl, -⟩ := RecordStore.load_eq_ok read
  have path : OneLine (d.recordPath c.machine.apaName) :=
    Files.oneLine_join (Files.oneLine_join names.directory (by decide))
      (names.frame.append (by decide))
  exact ⟨names.directory, path, ⟨names.calibrations, nofun⟩, status⟩

theorem Inline.boot [LineScalar R] (h : m.Inline) : m.boot.2.Inline := by
  have noted := h.note "machine" "boot" "host started" [("apa", m.record.name)]
  have synced : m.bootExecutor.Inline := by
    unfold bootExecutor
    split
    · exact h.executor.syncPosition _
    · exact h.executor
  rw [boot_eq]
  simp only
  generalize m.note "machine" "boot" "host started" [("apa", m.record.name)] = m₁ at noted ⊢
  split
  · exact ⟨noted.directory, noted.record, synced, noted.status⟩
  · next recipe _ =>
    have loaded := (synced.load m₁.files recipe (m.record.line.getD 0)).1
    generalize m.bootExecutor.load m₁.files recipe (m.record.line.getD 0) = r at loaded ⊢
    obtain ⟨e | ⟨⟩, x⟩ := r
    · have failed := Inline.withRecord (m := { m₁ with executor := x })
        ⟨noted.directory, noted.record, loaded, noted.status⟩
        fun r => r.withFault m₁.now "boot" e.message (some (m.record.line.getD 0))
      exact failed.save.andThen fun _ m' h' => ⟨h'.directory, h'.record, h'.executor, h'.status⟩
    · exact ⟨noted.directory, noted.record, loaded, noted.status⟩

end Machine

/-- What the station can be told to name is named on one line. -/
structure Station.Inline (s : Station σ R) : Prop where
  machine : s.machine.Inline
  dispatcher : s.dispatcher.Inline

variable [Adapter σ]

namespace Station

theorem start_inline [LineScalar R] {c : Configuration R} {files files' : FileStore}
    {d : DataDirectory} {plc : σ} {clock : Nat} {now : Timestamp} {s : Station σ R}
    (names : c.Inline d) (h : Station.start c files d plc clock now = (.ok s, files')) :
    s.Inline := by
  obtain ⟨_, _, status, link, _, _, m, -, polled, made, booted, dispatcher⟩ := start_eq_ok h
  have fresh : (Link.make c.machine.controllerTimeoutMillis : Link R).registry.Wired := .standard
  have wired := Link.poll_wired fresh plc
  rw [polled] at wired
  have begun := (Machine.make_inline names (Link.poll_inline (congrArg Prod.fst polled)) made).boot
  rw [booted] at begun
  exact ⟨begun, dispatcher ▸ Dispatcher.make_inline wired _⟩

theorem Inline.dispatch [LineScalar R] [CandidAdapter σ] {s : Station σ R} (h : s.Inline) :
    s.dispatch.Inline := by
  obtain ⟨dispatcher, status⟩ := h.dispatcher.cycle h.machine.status s.plc s.clock
  exact ⟨⟨h.machine.directory, h.machine.record, h.machine.executor, status⟩, dispatcher⟩

end Station

/-! ## Serving -/

/-- What happens at a host while a connection is open. -/
inductive Host.Event (σ R : Type) where
  /-- The connection reads a line. -/
  | line (text : String)
  /-- A command of another connection is carried out. -/
  | command (c : Command R)
  /-- A cycle of the dispatcher. -/
  | dispatch
  /-- A period of the machine. -/
  | tick
  /-- The controller, the files and the time change without the host. -/
  | world (plc : σ) (files : FileStore) (clock : Nat) (now : Timestamp)

namespace Host

/-- The line of the connection. -/
def Event.line? : Event σ R → Option String
  | .line text => some text
  | .command _ | .dispatch | .tick | .world .. => none

/-- Whether nothing stands on a line. -/
def isBlankLine (line : String) : Bool := (trim line.toList).isEmpty

/-- What comes back for a line that a connection reads when the host has closed: there is no machine
any more that could carry out a command. -/
def late (h : Host σ R) (line : String) : Response R :=
  if isBlankLine line then .ignored
  else match (Command.ofText line : Except CommandError (Command R)) with
    | .error e => .reply (.line (refusal e.message))
    | .ok .status => .reply (.status h.published)
    | .ok _ => .reply (.line (refusal "machine unavailable"))

/-- Answers a line that a connection reads. -/
def answer (h : Host σ R) (line : String) : Response R × Host σ R :=
  if h.isClosed then (h.late line, h) else h.respond line

omit [Adapter σ] in
/-- Carries out a command in front of the next period of the machine. -/
def carryOut (h : Host σ R) (c : Command R) : Host σ R :=
  let (result, m) := h.station.machine.handle c
  let h := { h with station := { h.station with machine := m } }
  match result with
  | .ok _ => h
  | .error e => h.fail e

/-- What an event writes to the connection, and the host after it. A host that has closed does
nothing any more. -/
def perform (h : Host σ R) : Event σ R → String × Host σ R
  | .line text => ((h.answer text).1.written, (h.answer text).2)
  | .command c => ("", if h.isClosed then h else h.carryOut c)
  | .dispatch => ("", if h.isClosed then h else h.dispatch)
  | .tick => ("", if h.isClosed then h else h.tick)
  | .world plc files clock now =>
    let m := { h.station.machine with files := files, now := now }
    ("", { h with station := { h.station with machine := m, plc := plc, clock := clock } })

/-- What is written to the connection. -/
def written (h : Host σ R) : List (Event σ R) → String
  | [] => ""
  | e :: es => (h.perform e).1 ++ (h.perform e).2.written es

omit [Scalar R] [Adapter σ] in
/-- The lines of the connection that are not blank. -/
def spoken (es : List (Event σ R)) : List String :=
  (es.filterMap Event.line?).filter fun line => !isBlankLine line

omit [Scalar R] [Adapter σ] in
theorem spoken_line (line : String) (es : List (Event σ R)) :
    spoken (.line line :: es) = if isBlankLine line then spoken es else line :: spoken es := by
  have read : (Event.line line :: es : List (Event σ R)).filterMap Event.line? =
      line :: es.filterMap Event.line? := rfl
  rw [spoken, read, List.filter_cons]
  cases isBlankLine line <;> rfl

/-- What a reply to a line can be: a text on one line, or the words of a calibration file that are not,
in which it refuses the recipe that the line loads. -/
def Answered (R : Type) [Scalar R] (line reply : String) : Prop :=
  OneLine reply ∨
    ∃ recipe start e, Command.ofText line = .ok (.load recipe start : Command R) ∧
      CalibrationError.QuotesDocument e ∧ reply = refusal ("Calibration error: " ++ e.message)

/-! ## Names -/

variable [LineScalar R] {h : Host σ R}

section

omit [Adapter σ] [LineScalar R]

theorem settle_inline {o : Outcome R Unit} (dispatcher : h.station.dispatcher.Inline)
    (machine : o.2.Inline) : (h.settle o).station.Inline := by
  unfold settle
  simp only
  split <;> exact ⟨machine, dispatcher⟩

theorem close_inline (hs : h.station.Inline) : h.close.station.Inline := by
  unfold close
  split
  · exact hs
  · exact settle_inline (h := { h with isClosed := true }) hs.dispatcher hs.machine.shutdown

theorem tick_inline (hs : h.station.Inline) : h.tick.station.Inline := by
  have settled := settle_inline hs.dispatcher hs.machine.tick
  unfold tick closeAtRest
  simp only
  split
  · exact settled
  · split
    · exact close_inline settled
    · exact settled

end

theorem dispatch_inline [CandidAdapter σ] (hs : h.station.Inline) : h.dispatch.station.Inline :=
  ⟨hs.dispatch.machine, hs.dispatch.dispatcher⟩

omit [Adapter σ] in
theorem carryOut_inline (hs : h.station.Inline) (c : Command R) :
    (h.carryOut c).station.Inline := by
  have handled := (hs.machine.tellsHandle c).machine
  unfold carryOut
  generalize h.station.machine.handle c = o at handled ⊢
  obtain ⟨e | reply, m⟩ := o
  · exact ⟨handled, hs.dispatcher⟩
  · exact ⟨handled, hs.dispatcher⟩

omit [Adapter σ] in
/-- A command that is carried out has a reply. -/
theorem command_answers (hs : h.station.Inline) (c : Command R) :
    (h.command c).2.station.Inline ∧
      (c.Named → OneLine (h.command c).1 ∨ h.station.machine.Quotes c (h.command c).1) := by
  obtain ⟨machine, result, error⟩ := hs.machine.tellsHandle c
  unfold command
  generalize h.station.machine.handle c = o at machine result error ⊢
  obtain ⟨e | reply, m⟩ := o
  · exact ⟨⟨machine, hs.dispatcher⟩, fun _ => .inl (Machine.oneLine_refusal (error e rfl))⟩
  · exact ⟨tick_inline (h := { h with station := { h.station with machine := m } })
      ⟨machine, hs.dispatcher⟩, result reply rfl⟩

/-- The response to a line is nothing if the line is blank, and one reply if it is not. -/
def Suits (line : String) (response : Response R) : Prop :=
  if isBlankLine line then response.written = ""
  else ∃ reply, response.written = reply ++ "\n" ∧ Answered R line reply

theorem respond_suits [CandidAdapter σ] (hs : h.station.Inline) (isOpen : h.isClosed = false)
    (line : String) :
    (h.respond line).2.station.Inline ∧ Suits line (h.respond line).1 := by
  have closed : ¬h.isClosed = true := by rw [isOpen]; exact Bool.false_ne_true
  unfold respond Suits
  rw [if_neg closed, isBlankLine]
  split
  · exact ⟨hs, rfl⟩
  · split
    · next unread =>
      refine ⟨hs, _, rfl, .inl ?_⟩
      exact Machine.oneLine_refusal (Command.oneLine_ofText unread)
    · exact ⟨hs, _, rfl, .inl h.published.oneLine_written⟩
    · next c _ read =>
      obtain ⟨served, told⟩ := command_answers (dispatch_inline hs) c
      refine ⟨served, _, rfl, ?_⟩
      refine (told (Command.named_of_ofText read)).imp_right ?_
      rintro ⟨recipe, start, e, rfl, quotes, -, text⟩
      exact ⟨recipe, start, e, read, quotes, text⟩

omit [Adapter σ] in
theorem late_suits (h : Host σ R) (line : String) : Suits line (h.late line) := by
  unfold late Suits
  split
  · rfl
  · split
    · next unread =>
      exact ⟨_, rfl, .inl (Machine.oneLine_refusal (Command.oneLine_ofText unread))⟩
    · exact ⟨_, rfl, .inl h.published.oneLine_written⟩
    · exact ⟨_, rfl, .inl (by decide : OneLine (refusal "machine unavailable"))⟩

theorem answer_suits [CandidAdapter σ] (hs : h.station.Inline) (line : String) :
    (h.answer line).2.station.Inline ∧ Suits line (h.answer line).1 := by
  unfold answer
  split
  · exact ⟨hs, h.late_suits line⟩
  · next isOpen => exact respond_suits hs (eq_false_of_ne_true isOpen) line

/-- Whatever happens, what the station can be told to name stays named on one line. -/
theorem perform_inline [CandidAdapter σ] (hs : h.station.Inline) (e : Event σ R) :
    (h.perform e).2.station.Inline := by
  have unlessClosed {h' : Host σ R} (hs' : h'.station.Inline) :
      (if h.isClosed then h else h').station.Inline := by
    split
    · exact hs
    · exact hs'
  cases e with
  | line text => exact (answer_suits hs text).1
  | command c => exact unlessClosed (carryOut_inline hs c)
  | dispatch => exact unlessClosed (dispatch_inline hs)
  | tick => exact unlessClosed (tick_inline hs)
  | world plc files clock now =>
    exact ⟨⟨hs.machine.directory, hs.machine.record, hs.machine.executor, hs.machine.status⟩,
      hs.dispatcher⟩

/-- What is written is a reply for each line that is not blank, in the order of the lines, with a
newline after each. -/
theorem written_replies [CandidAdapter σ] (hs : h.station.Inline) (es : List (Event σ R)) :
    ∃ replies : List String, h.written es = String.join (replies.map (· ++ "\n")) ∧
      List.Forall₂ (Answered R) (spoken es) replies := by
  induction es generalizing h with
  | nil => exact ⟨[], rfl, .nil⟩
  | cons e es ih =>
    obtain ⟨replies, text, answered⟩ := ih (perform_inline hs e)
    rw [written, text]
    cases e with
    | line said =>
      have suits := (answer_suits hs said).2
      unfold Suits at suits
      split at suits
      · next blank =>
        refine ⟨replies, ?_, ?_⟩
        · rw [perform, suits, String.empty_append]
        · rwa [spoken_line, if_pos blank]
      · next some =>
        obtain ⟨reply, wrote, told⟩ := suits
        refine ⟨reply :: replies, ?_, ?_⟩
        · rw [perform, wrote, List.map_cons, String.join_cons]
        · rw [spoken_line, if_neg some]
          exact .cons told answered
    | command | dispatch | tick | world => exact ⟨replies, String.empty_append, answered⟩

end Host

/-- From the start of a station on, whatever operators ask for, and whatever the controller and the
files do: each line of a connection that is not blank has one reply, in the order of the lines, with
a newline after it, and a blank line has none. A reply is on one line, unless it refuses a recipe in
the words of a calibration file that are not. -/
theorem Station.replies [LineScalar R] [CandidAdapter σ] {c : Configuration R}
    {files files' : FileStore} {d : DataDirectory} {plc : σ} {clock : Nat} {now : Timestamp}
    {s : Station σ R} (names : c.Inline d)
    (started : Station.start c files d plc clock now = (.ok s, files'))
    (es : List (Host.Event σ R)) :
    ∃ replies : List String,
      (Host.ofStation s).written es = String.join (replies.map (· ++ "\n")) ∧
      List.Forall₂ (Host.Answered R) (Host.spoken es) replies :=
  Host.written_replies (start_inline names started) es

/-! ## Two connections on the bench -/

namespace Bench

/-- The station that starts from files, with the simulated controller. -/
def started (files : FileStore) : Option (Station Simulator Float) :=
  (Station.start .standard files ⟨"/data"⟩ (Simulator.make 1) 0 .epoch).1.toOption

theorem exists_of_started {files : FileStore} {s : Station Simulator Float}
    (h : started files = some s) : ∃ files',
      Station.start .standard files ⟨"/data"⟩ (Simulator.make 1) 0 .epoch = (.ok s, files') :=
  ⟨_, Prod.ext (eq_ok_of_toOption h) rfl⟩

/-- The calibration of the layer names a pin on two lines. -/
def quotedFiles : FileStore :=
  seekFiles.putFile ["data", "calibration", "X.xml"]
    ("<LayerCalibration layer=\"X\" zFront=\"0\" zBack=\"0\">" ++
      "<pin id=\"F&#10;1\" x=\"0\" y=\"0\"/></LayerCalibration>").toUTF8

/-- A connection that loads the recipe. -/
def loading : List (Host.Event Simulator Float) := [.line "load seek"]

theorem quoted_written : ∃ s ∈ started quotedFiles, (Host.ofStation s).written loading =
    "error Calibration error: Invalid pin id 'F\n1'\n" := by
  decide +kernel

/-- The reply that refuses a pin named on two lines is on two lines. -/
theorem quoted_pin : ∃ (s : Station Simulator Float) (files : FileStore),
    Station.start .standard quotedFiles ⟨"/data"⟩ (Simulator.make 1) 0 .epoch = (.ok s, files) ∧
    ¬∃ replies : List String,
      (Host.ofStation s).written loading = String.join (replies.map (· ++ "\n")) ∧
      List.Forall₂ (fun _ reply => OneLine reply) (Host.spoken loading) replies := by
  obtain ⟨s, started, written⟩ := quoted_written
  obtain ⟨files, started⟩ := exists_of_started started
  refine ⟨s, files, started, ?_⟩
  rintro ⟨replies, text, lines⟩
  have spoken : Host.spoken loading = ["load seek"] := by decide
  rw [spoken] at lines
  rcases lines with - | @⟨_, reply, _, _, line, ⟨⟩⟩
  rw [written, List.map_singleton, String.join_cons, String.join_nil, String.append_empty] at text
  have same : "error Calibration error: Invalid pin id 'F\n1'" = reply :=
    (String.append_left_inj "\n").mp text
  rw [← same] at line
  exact absurd line (by decide)

/-- A connection that loads a recipe and starts to wind it, with a blank line in between. -/
def talking : List (Host.Event Simulator Float) :=
  [.line "load seek", .dispatch, .line "  ", .tick, .line "start", .line "nonsense"]

theorem standard_inline : (Configuration.standard : Configuration Float).Inline ⟨"/data"⟩ :=
  ⟨by decide, by decide, by decide⟩

theorem talking_answered : ∃ (s : Station Simulator Float) (files : FileStore),
    Station.start .standard seekFiles ⟨"/data"⟩ (Simulator.make 1) 0 .epoch = (.ok s, files) ∧
    (Configuration.standard : Configuration Float).Inline ⟨"/data"⟩ ∧
    ∃ replies : List String,
      (Host.ofStation s).written talking = String.join (replies.map (· ++ "\n")) ∧
      List.Forall₂ (Host.Answered Float) ["load seek", "start", "nonsense"] replies := by
  have starts : (started seekFiles).isSome := by decide +kernel
  obtain ⟨s, started⟩ := Option.isSome_iff_exists.mp starts
  obtain ⟨files, started⟩ := exists_of_started started
  exact ⟨s, files, started, standard_inline, Station.replies standard_inline started talking⟩

end Bench

end Winding
