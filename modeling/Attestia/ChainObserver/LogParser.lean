import Attestia.Lib.NumberText

/-!
# Program logs

`log-parser.ts`: the lines that a transaction logs are told apart by their texts, and those between
the invocation of a program and its end are given to that program. A program writes some of these
lines itself; `Trace` is what has been run, and `render` what is then logged.
-/

namespace Attestia.ChainObserver

open Lib DecimalText

inductive LogType where
  | invoke
  | success
  | failure
  | log
  | data
  deriving DecidableEq

structure ParsedLogEvent where
  programId : JsString
  depth : JsNumber
  type : LogType
  message : JsString
  data : Option JsString
  error : Option JsString

/-! ## The patterns -/

def isLineTerminator (u : UInt16) : Bool := u ∈ ([0x0A, 0x0D, 0x2028, 0x2029] : List UInt16)

/-- What is behind the beginning of a text. -/
def behind (start text : JsString) : Option JsString :=
  if start <+: text then some (text.drop start.length) else none

/-- `(.+)$`. -/
def restOfLine (text : JsString) : Option JsString :=
  if text ≠ [] ∧ text.all (fun u => !isLineTerminator u) then some text else none

/-- `^Program (\S+)`, and what is behind it. -/
def programPart (line : JsString) : Option (JsString × JsString) := do
  let text ← behind (js "Program ") line
  let programId := text.takeWhile fun u => !isBlank u
  if programId = [] then none else some (programId, text.dropWhile fun u => !isBlank u)

def invokeMatch (line : JsString) : Option (JsString × JsString) := do
  let (programId, text) ← programPart line
  let text ← behind (js " invoke [") text
  let digits := text.takeWhile isDigit
  if digits ≠ [] ∧ text.dropWhile isDigit = js "]" then some (programId, digits) else none

def successMatch (line : JsString) : Option JsString := do
  let (programId, text) ← programPart line
  if text = js " success" then some programId else none

def failureMatch (line : JsString) : Option (JsString × JsString) := do
  let (programId, text) ← programPart line
  let error ← restOfLine (← behind (js " failed: ") text)
  return (programId, error)

def dataMatch (line : JsString) : Option JsString :=
  (behind (js "Program data: ") line).bind restOfLine

def logMatch (line : JsString) : Option JsString :=
  (behind (js "Program log: ") line).bind restOfLine

/-! ## The parser -/

structure LogState where
  events : List ParsedLogEvent
  programStack : List JsString

def LogState.push (s : LogState) (event : ParsedLogEvent) : LogState :=
  { s with events := s.events ++ [event] }

def currentProgram (programStack : List JsString) : JsString :=
  programStack.getLast?.getD (js "unknown")

def parseLine (s : LogState) (line : JsString) : LogState :=
  match invokeMatch line with
  | some (programId, digits) =>
    { s with programStack := s.programStack ++ [programId] }.push
      ⟨programId, JsNumber.parseInt digits, .invoke, line, none, none⟩
  | none =>
  match successMatch line with
  | some programId =>
    { s with programStack := s.programStack.dropLast }.push
      ⟨programId, .finite (s.programStack.dropLast.length + 1 : ℕ), .success, line, none, none⟩
  | none =>
  match failureMatch line with
  | some (programId, error) =>
    { s with programStack := s.programStack.dropLast }.push
      ⟨programId, .finite (s.programStack.dropLast.length + 1 : ℕ), .failure, line, none,
        some error⟩
  | none =>
  match dataMatch line with
  | some data => s.push ⟨currentProgram s.programStack, .finite (s.programStack.length : ℕ), .data,
      line, some data, none⟩
  | none =>
  match logMatch line with
  | some _ => s.push ⟨currentProgram s.programStack, .finite (s.programStack.length : ℕ), .log,
      line, none, none⟩
  | none => s

def parseProgramLogs (logs : List JsString) : List ParsedLogEvent :=
  (logs.foldl parseLine ⟨[], []⟩).events

/-! ## What is run, and what is logged -/

inductive Ending where
  | succeeded
  | failed (error : JsString)

/-- What a program does, one thing after another; `note` is a line of the runtime that is no
event. -/
inductive Trace where
  | done
  | log (message : JsString) (rest : Trace)
  | data (data : JsString) (rest : Trace)
  | note (line : JsString) (rest : Trace)
  | call (programId : JsString) (body : Trace) (ending : Ending) (rest : Trace)

def logLine (message : JsString) : JsString := js "Program log: " ++ message

def dataLine (data : JsString) : JsString := js "Program data: " ++ data

def invokeLine (programId : JsString) (depth : ℕ) : JsString :=
  js "Program " ++ (programId ++ (js " invoke [" ++ (natDigits depth ++ js "]")))

def Ending.line (programId : JsString) : Ending → JsString
  | succeeded => js "Program " ++ (programId ++ js " success")
  | failed error => js "Program " ++ (programId ++ (js " failed: " ++ error))

def Ending.event (programId : JsString) (depth : ℕ) (ending : Ending) : ParsedLogEvent :=
  match ending with
  | succeeded => ⟨programId, .finite depth, .success, ending.line programId, none, none⟩
  | failed error => ⟨programId, .finite depth, .failure, ending.line programId, none, some error⟩

namespace Trace

/-- The lines that are logged under so many programs. -/
def render : ℕ → Trace → List JsString
  | _, done => []
  | depth, log message rest => logLine message :: rest.render depth
  | depth, data text rest => dataLine text :: rest.render depth
  | depth, note line rest => line :: rest.render depth
  | depth, call programId body ending rest =>
    invokeLine programId (depth + 1) :: (body.render (depth + 1) ++
      ending.line programId :: rest.render depth)

/-- What has happened, each event with the program that it comes from. -/
def events : List JsString → Trace → List ParsedLogEvent
  | _, done => []
  | stack, log message rest =>
    ⟨currentProgram stack, .finite (stack.length : ℕ), .log, logLine message, none, none⟩ ::
      rest.events stack
  | stack, data text rest =>
    ⟨currentProgram stack, .finite (stack.length : ℕ), .data, dataLine text, some text, none⟩ ::
      rest.events stack
  | stack, note _ rest => rest.events stack
  | stack, call programId body ending rest =>
    ⟨programId, .finite (stack.length + 1 : ℕ), .invoke, invokeLine programId (stack.length + 1),
        none, none⟩ :: (body.events (stack ++ [programId]) ++
      ending.event programId (stack.length + 1) :: rest.events stack)

end Trace

/-- The kind of event that a line is. -/
def lineType (line : JsString) : Option LogType :=
  if (invokeMatch line).isSome then some .invoke
  else if (successMatch line).isSome then some .success
  else if (failureMatch line).isSome then some .failure
  else if (dataMatch line).isSome then some .data
  else if (logMatch line).isSome then some .log
  else none

/-- A text of one line. -/
def OneLine (text : JsString) : Prop := text ≠ [] ∧ ∀ u ∈ text, isLineTerminator u = false

def IsProgramId (programId : JsString) : Prop := programId ≠ [] ∧ ∀ u ∈ programId, isBlank u = false

def Ending.Printable : Ending → Prop
  | succeeded => True
  | failed error => OneLine error

/-- The names and texts are such as a runtime logs, and fewer programs are nested than numbers are
exact. -/
def Trace.Printable : ℕ → Trace → Prop
  | _, done => True
  | depth, log message rest => OneLine message ∧ rest.Printable depth
  | depth, data text rest => OneLine text ∧ rest.Printable depth
  | depth, note line rest => lineType line = none ∧ rest.Printable depth
  | depth, call programId body ending rest => IsProgramId programId ∧ depth + 1 < 2 ^ 53 ∧
    body.Printable (depth + 1) ∧ ending.Printable ∧ rest.Printable depth

/-- A text that reads as the end of a line of the runtime. -/
def IsMarker (text : JsString) : Prop :=
  text = js "success" ∨ (∃ error ≠ [], text = js "failed: " ++ error) ∨
    ∃ digits ≠ [], (∀ u ∈ digits, isDigit u = true) ∧ text = js "invoke [" ++ (digits ++ js "]")

/-- No program writes what reads as a line of the runtime. -/
def Trace.Plain : Trace → Prop
  | done => True
  | log message rest => ¬ IsMarker message ∧ rest.Plain
  | data text rest => ¬ IsMarker text ∧ rest.Plain
  | note _ rest => rest.Plain
  | call _ body _ rest => body.Plain ∧ rest.Plain

/-! ## Lines of a program -/

/-- The lines are a name and what follows it, whether the runtime has written them or a program. -/
def namedLine (programId text : JsString) : JsString := js "Program " ++ (programId ++ 0x20 :: text)

theorem logLine_eq (message : JsString) : logLine message = namedLine (js "log:") message := rfl

theorem dataLine_eq (data : JsString) : dataLine data = namedLine (js "data:") data := rfl

theorem behind_append (start text : JsString) : behind start (start ++ text) = some text := by
  rw [behind, if_pos (List.prefix_append start text), List.drop_left]

theorem behind_eq_some {start text rest : JsString} :
    behind start text = some rest ↔ text = start ++ rest := by
  constructor
  · intro h
    rw [behind] at h
    split at h
    · rename_i hstart
      obtain ⟨t, rfl⟩ := hstart
      rw [List.drop_left] at h
      rw [Option.some.inj h]
    · cases h
  · rintro rfl
    exact behind_append start rest

theorem restOfLine_eq_some {text rest : JsString} :
    restOfLine text = some rest ↔ OneLine text ∧ rest = text := by
  have hall : (text.all fun u => !isLineTerminator u) = true ↔
      ∀ u ∈ text, isLineTerminator u = false := by simp
  rw [restOfLine]
  split
  · rename_i h
    rw [Option.some.injEq]
    exact ⟨fun heq => ⟨⟨h.1, hall.mp h.2⟩, heq.symm⟩, fun heq => heq.2.symm⟩
  · rename_i h
    exact ⟨fun heq => (by cases heq), fun heq => absurd ⟨heq.1.1, hall.mpr heq.1.2⟩ h⟩

/-- The spaces of a name end it. -/
theorem programPart_namedLine {programId : JsString} (h : IsProgramId programId) (text : JsString) :
    programPart (namedLine programId text) = some (programId, 0x20 :: text) := by
  have hid : ∀ u ∈ programId, (!isBlank u) = true := by
    intro u hu
    rw [h.2 u hu, Bool.not_false]
  have htake : (0x20 :: text).takeWhile (fun u => !isBlank u) = [] :=
    List.takeWhile_cons_of_neg (by decide)
  have hdrop : (0x20 :: text).dropWhile (fun u => !isBlank u) = 0x20 :: text :=
    List.dropWhile_cons_of_neg (by decide)
  rw [programPart, namedLine, behind_append, Option.bind_eq_bind, Option.bind_some]
  dsimp only
  rw [List.takeWhile_append_of_pos hid, List.dropWhile_append_of_pos hid, htake, hdrop,
    List.append_nil, if_neg h.1]

theorem isProgramId_of_all {programId : JsString}
    (h : (!programId.isEmpty && programId.all fun u => !isBlank u) = true) :
    IsProgramId programId := by
  simpa [IsProgramId] using h

theorem oneLine_of_all {text : JsString}
    (h : (!text.isEmpty && text.all fun u => !isLineTerminator u) = true) : OneLine text := by
  simpa [OneLine] using h

theorem isProgramId_log : IsProgramId (js "log:") := isProgramId_of_all (by decide +kernel)

theorem isProgramId_data : IsProgramId (js "data:") := isProgramId_of_all (by decide +kernel)

section

variable {programId id text : JsString}

theorem invokeMatch_eq_some (h : IsProgramId programId) {digits : JsString} :
    invokeMatch (namedLine programId text) = some (id, digits) ↔
      id = programId ∧ digits ≠ [] ∧ (∀ u ∈ digits, isDigit u = true) ∧
        text = js "invoke [" ++ (digits ++ js "]") := by
  rw [invokeMatch, programPart_namedLine h, Option.bind_eq_bind, Option.bind_some]
  dsimp only
  constructor
  · intro heq
    obtain ⟨rest, hrest, heq⟩ := Option.bind_eq_some_iff.mp heq
    have htext : text = js "invoke [" ++ rest := by
      have hcons := behind_eq_some.mp hrest
      exact (List.cons.inj hcons).2
    split at heq
    · rename_i hdigits
      cases heq
      refine ⟨rfl, hdigits.1, fun u hu => List.mem_takeWhile_imp hu, ?_⟩
      rw [htext, ← hdigits.2, List.takeWhile_append_dropWhile]
    · cases heq
  · rintro ⟨rfl, hne, hdigits, rfl⟩
    have hclose : ¬ isDigit 0x5D = true := by decide
    have hbehind : behind (js " invoke [") (0x20 :: (js "invoke [" ++ (digits ++ js "]"))) =
        some (digits ++ [0x5D]) := behind_append (js " invoke [") (digits ++ js "]")
    rw [hbehind, Option.bind_eq_bind, Option.bind_some, List.takeWhile_append_of_pos hdigits,
      List.dropWhile_append_of_pos hdigits, List.takeWhile_cons_of_neg hclose,
      List.dropWhile_cons_of_neg hclose, List.append_nil, if_pos ⟨hne, rfl⟩]

theorem successMatch_eq_some (h : IsProgramId programId) :
    successMatch (namedLine programId text) = some id ↔ id = programId ∧ text = js "success" := by
  rw [successMatch, programPart_namedLine h, Option.bind_eq_bind, Option.bind_some]
  dsimp only
  constructor
  · intro heq
    split at heq
    · rename_i htext
      cases heq
      exact ⟨rfl, (List.cons.inj htext).2⟩
    · cases heq
  · rintro ⟨rfl, rfl⟩
    rfl

theorem failureMatch_eq_some (h : IsProgramId programId) {error : JsString} :
    failureMatch (namedLine programId text) = some (id, error) ↔
      id = programId ∧ OneLine error ∧ text = js "failed: " ++ error := by
  rw [failureMatch, programPart_namedLine h, Option.bind_eq_bind, Option.bind_some]
  dsimp only
  constructor
  · intro heq
    obtain ⟨rest, hrest, heq⟩ := Option.bind_eq_some_iff.mp heq
    rw [Option.bind_eq_bind] at heq
    obtain ⟨error', herror, heq⟩ := Option.bind_eq_some_iff.mp heq
    obtain ⟨hline, rfl⟩ := restOfLine_eq_some.mp herror
    rw [herror] at heq
    cases heq
    exact ⟨rfl, hline, (List.cons.inj (behind_eq_some.mp hrest)).2⟩
  · rintro ⟨rfl, hline, rfl⟩
    have hbehind : behind (js " failed: ") (0x20 :: (js "failed: " ++ error)) = some error :=
      behind_append (js " failed: ") error
    have hrest : restOfLine error = some error := restOfLine_eq_some.mpr ⟨hline, rfl⟩
    rw [hbehind, Option.bind_eq_bind, Option.bind_some, hrest]
    rfl

theorem invokeMatch_eq_none (h : IsProgramId programId)
    (htext : ∀ digits ≠ [], (∀ u ∈ digits, isDigit u = true) →
      text ≠ js "invoke [" ++ (digits ++ js "]")) :
    invokeMatch (namedLine programId text) = none := by
  apply Option.eq_none_iff_forall_ne_some.mpr
  rintro ⟨id, digits⟩ heq
  obtain ⟨-, hne, hdigits, heq⟩ := (invokeMatch_eq_some h).mp heq
  exact htext digits hne hdigits heq

theorem successMatch_eq_none (h : IsProgramId programId) (htext : text ≠ js "success") :
    successMatch (namedLine programId text) = none := by
  apply Option.eq_none_iff_forall_ne_some.mpr
  intro id heq
  exact htext ((successMatch_eq_some h).mp heq).2

theorem failureMatch_eq_none (h : IsProgramId programId)
    (htext : ∀ error, OneLine error → text ≠ js "failed: " ++ error) :
    failureMatch (namedLine programId text) = none := by
  apply Option.eq_none_iff_forall_ne_some.mpr
  rintro ⟨id, error⟩ heq
  obtain ⟨-, hline, heq⟩ := (failureMatch_eq_some h).mp heq
  exact htext error hline heq

theorem oneLine_of_append {a b : JsString} (h : OneLine (a ++ b)) (hb : b ≠ []) : OneLine b :=
  ⟨hb, fun u hu => h.2 u (List.mem_append_right a hu)⟩

/-- What a program writes is no line of the runtime, unless it reads as one. -/
theorem matches_eq_none (h : IsProgramId programId) (hplain : ¬ IsMarker text) :
    invokeMatch (namedLine programId text) = none ∧ successMatch (namedLine programId text) = none ∧
      failureMatch (namedLine programId text) = none := by
  refine ⟨invokeMatch_eq_none h ?_, successMatch_eq_none h ?_, failureMatch_eq_none h ?_⟩
  · intro digits hne hdigits heq
    exact hplain (.inr (.inr ⟨digits, hne, hdigits, heq⟩))
  · exact fun heq => hplain (.inl heq)
  · exact fun error herror heq => hplain (.inr (.inl ⟨error, herror.1, heq⟩))

theorem dataMatch_logLine (message : JsString) : dataMatch (logLine message) = none := by
  have hbehind : behind (js "Program data: ") (logLine message) = none := by
    apply Option.eq_none_iff_forall_ne_some.mpr
    intro rest heq
    have htake := congrArg (List.take 9) (behind_eq_some.mp heq)
    revert htake
    change ¬ [80, 114, 111, 103, 114, 97, 109, 32, 108] = [80, 114, 111, 103, 114, 97, 109, 32, 100]
    decide
  rw [dataMatch, hbehind, Option.bind_none]

theorem dataMatch_dataLine {data : JsString} (h : OneLine data) :
    dataMatch (dataLine data) = some data := by
  rw [dataMatch, dataLine, behind_append, Option.bind_some]
  exact restOfLine_eq_some.mpr ⟨h, rfl⟩

theorem logMatch_logLine {message : JsString} (h : OneLine message) :
    logMatch (logLine message) = some message := by
  rw [logMatch, logLine, behind_append, Option.bind_some]
  exact restOfLine_eq_some.mpr ⟨h, rfl⟩

/-! ### Steps -/

variable (s : LogState)

theorem parseLine_invokeLine (h : IsProgramId programId) (depth : ℕ) :
    parseLine s (invokeLine programId depth) =
      { s with programStack := s.programStack ++ [programId] }.push
        ⟨programId, JsNumber.parseInt (natDigits depth), .invoke, invokeLine programId depth, none,
          none⟩ := by
  have hinvoke : invokeMatch (invokeLine programId depth) = some (programId, natDigits depth) :=
    (invokeMatch_eq_some h).mpr
      ⟨rfl, natDigits_ne_nil depth, fun _ hu => isDigit_of_mem_natDigits hu, rfl⟩
  rw [parseLine, hinvoke]

theorem parseLine_ending (h : IsProgramId programId) {ending : Ending}
    (hending : ending.Printable) :
    parseLine s (ending.line programId) =
      { s with programStack := s.programStack.dropLast }.push
        (ending.event programId (s.programStack.dropLast.length + 1)) := by
  cases ending with
  | succeeded =>
    have hinvoke : invokeMatch (namedLine programId (js "success")) = none := by
      apply invokeMatch_eq_none h
      intro digits _ _ heq
      have hhead : (some 0x73 : Option UInt16) = some 0x69 := congrArg List.head? heq
      exact absurd hhead (by decide)
    have hsuccess : successMatch (namedLine programId (js "success")) = some programId :=
      (successMatch_eq_some h).mpr ⟨rfl, rfl⟩
    change parseLine s (namedLine programId (js "success")) = _
    rw [parseLine, hinvoke]
    dsimp only
    rw [hsuccess]
    rfl
  | failed error =>
    have hinvoke : invokeMatch (namedLine programId (js "failed: " ++ error)) = none := by
      apply invokeMatch_eq_none h
      intro digits _ _ heq
      have hhead : (some 0x66 : Option UInt16) = some 0x69 := congrArg List.head? heq
      exact absurd hhead (by decide)
    have hsuccess : successMatch (namedLine programId (js "failed: " ++ error)) = none := by
      apply successMatch_eq_none h
      intro heq
      have hhead : (some 0x66 : Option UInt16) = some 0x73 := congrArg List.head? heq
      exact absurd hhead (by decide)
    have hfailure : failureMatch (namedLine programId (js "failed: " ++ error)) =
        some (programId, error) := (failureMatch_eq_some h).mpr ⟨rfl, hending, rfl⟩
    change parseLine s (namedLine programId (js "failed: " ++ error)) = _
    rw [parseLine, hinvoke]
    dsimp only
    rw [hsuccess]
    dsimp only
    rw [hfailure]
    rfl

theorem parseLine_logLine {message : JsString} (h : OneLine message) (hplain : ¬ IsMarker message) :
    parseLine s (logLine message) = s.push ⟨currentProgram s.programStack,
      .finite (s.programStack.length : ℕ), .log, logLine message, none, none⟩ := by
  obtain ⟨hinvoke, hsuccess, hfailure⟩ := matches_eq_none isProgramId_log hplain
  rw [← logLine_eq] at hinvoke hsuccess hfailure
  rw [parseLine, hinvoke]
  dsimp only
  rw [hsuccess]
  dsimp only
  rw [hfailure]
  dsimp only
  rw [dataMatch_logLine]
  dsimp only
  rw [logMatch_logLine h]

theorem parseLine_dataLine {data : JsString} (h : OneLine data) (hplain : ¬ IsMarker data) :
    parseLine s (dataLine data) = s.push ⟨currentProgram s.programStack,
      .finite (s.programStack.length : ℕ), .data, dataLine data, some data, none⟩ := by
  obtain ⟨hinvoke, hsuccess, hfailure⟩ := matches_eq_none isProgramId_data hplain
  rw [← dataLine_eq] at hinvoke hsuccess hfailure
  rw [parseLine, hinvoke]
  dsimp only
  rw [hsuccess]
  dsimp only
  rw [hfailure]
  dsimp only
  rw [dataMatch_dataLine h]

/-- A line gives one event of its kind, or none. -/
theorem types_parseLine (line : JsString) : (parseLine s line).events.map ParsedLogEvent.type =
    s.events.map ParsedLogEvent.type ++ (lineType line).toList := by
  rw [parseLine, lineType]
  cases invokeMatch line with
  | some m => exact List.map_append
  | none =>
    cases successMatch line with
    | some m => exact List.map_append
    | none =>
      cases failureMatch line with
      | some m => exact List.map_append
      | none =>
        cases dataMatch line with
        | some m => exact List.map_append
        | none =>
          cases logMatch line with
          | some m => exact List.map_append
          | none => exact (List.append_nil _).symm

theorem parseLine_of_lineType_eq_none {line : JsString} (h : lineType line = none) :
    parseLine s line = s := by
  rw [lineType] at h
  rw [parseLine]
  cases hinvoke : invokeMatch line with
  | some m => simp [hinvoke] at h
  | none =>
    cases hsuccess : successMatch line with
    | some m => simp [hinvoke, hsuccess] at h
    | none =>
      cases hfailure : failureMatch line with
      | some m => simp [hinvoke, hsuccess, hfailure] at h
      | none =>
        cases hdata : dataMatch line with
        | some m => simp [hinvoke, hsuccess, hfailure, hdata] at h
        | none =>
          cases hlog : logMatch line with
          | some m => simp [hinvoke, hsuccess, hfailure, hdata, hlog] at h
          | none => rfl

end

/-! ## A whole log -/

theorem parseInt_depth {depth : ℕ} (h : depth < 2 ^ 53) :
    JsNumber.parseInt (natDigits depth) = .finite depth := by
  rw [JsNumber.parseInt_natDigits, (JsNumber.representable_natCast h.le).ofRational]

/-- The parser gives each event to the program that runs. -/
theorem foldl_render (t : Trace) : ∀ (events : List ParsedLogEvent) (stack : List JsString),
    t.Printable stack.length → t.Plain →
    (t.render stack.length).foldl parseLine ⟨events, stack⟩ =
      ⟨events ++ t.events stack, stack⟩ := by
  induction t with
  | done =>
    intro events stack _ _
    rw [Trace.events, List.append_nil]
    rfl
  | log message rest ih =>
    rintro events stack ⟨hline, hrest⟩ ⟨hplain, hplainRest⟩
    rw [Trace.render, List.foldl_cons, parseLine_logLine _ hline hplain, LogState.push,
      ih _ _ hrest hplainRest, Trace.events, List.append_assoc]
    rfl
  | data text rest ih =>
    rintro events stack ⟨hline, hrest⟩ ⟨hplain, hplainRest⟩
    rw [Trace.render, List.foldl_cons, parseLine_dataLine _ hline hplain, LogState.push,
      ih _ _ hrest hplainRest, Trace.events, List.append_assoc]
    rfl
  | note line rest ih =>
    rintro events stack ⟨hline, hrest⟩ hplain
    rw [Trace.render, List.foldl_cons, parseLine_of_lineType_eq_none _ hline, ih _ _ hrest hplain,
      Trace.events]
  | call programId body ending rest ihbody ihrest =>
    rintro events stack ⟨hid, hdepth, hbody, hending, hrest⟩ ⟨hplainBody, hplainRest⟩
    have hlength : (stack ++ [programId]).length = stack.length + 1 := by simp
    have hpop : (stack ++ [programId]).dropLast = stack := List.dropLast_concat
    rw [Trace.render, List.foldl_cons, parseLine_invokeLine _ hid, parseInt_depth hdepth,
      LogState.push, List.foldl_append, ← hlength]
    dsimp only
    -- the body runs under one more program, which its end takes away again
    rw [ihbody _ _ (hlength ▸ hbody) hplainBody, List.foldl_cons, parseLine_ending _ hid hending]
    dsimp only [LogState.push]
    rw [hpop, ihrest _ _ hrest hplainRest, Trace.events, hlength]
    simp only [List.append_assoc, List.nil_append, List.cons_append]

/-! ### Kinds of lines -/

theorem types_foldl (logs : List JsString) (s : LogState) :
    (logs.foldl parseLine s).events.map ParsedLogEvent.type =
      s.events.map ParsedLogEvent.type ++ logs.filterMap lineType := by
  induction logs generalizing s with
  | nil => exact (List.append_nil _).symm
  | cons line logs ih =>
    rw [List.foldl_cons, ih, types_parseLine, List.append_assoc, List.filterMap_cons]
    cases lineType line <;> rfl

def Ending.type : Ending → LogType
  | succeeded => .success
  | failed _ => .failure

/-- The kinds that a log should have. -/
def Trace.types : Trace → List LogType
  | done => []
  | log _ rest => .log :: rest.types
  | data _ rest => .data :: rest.types
  | note _ rest => rest.types
  | call _ body ending rest => .invoke :: (body.types ++ ending.type :: rest.types)

theorem types_events (t : Trace) (stack : List JsString) :
    (t.events stack).map ParsedLogEvent.type = t.types := by
  induction t generalizing stack with
  | done => rfl
  | log message rest ih => rw [Trace.events, List.map_cons, ih, Trace.types]
  | data text rest ih => rw [Trace.events, List.map_cons, ih, Trace.types]
  | note line rest ih => rw [Trace.events, ih, Trace.types]
  | call programId body ending rest ihbody ihrest =>
    rw [Trace.events, List.map_cons, List.map_append, ihbody, List.map_cons, ihrest, Trace.types]
    cases ending <;> rfl

theorem lineType_of_parseLine {line : JsString} {event : ParsedLogEvent}
    {stack stack' : List JsString}
    (h : parseLine ⟨[], stack⟩ line = LogState.push ⟨[], stack'⟩ event) :
    lineType line = some event.type := by
  have htypes := types_parseLine ⟨[], stack⟩ line
  rw [h] at htypes
  cases hline : lineType line with
  | none =>
    rw [hline] at htypes
    cases htypes
  | some type =>
    rw [hline] at htypes
    exact congrArg some (List.cons.inj htypes).1.symm

theorem lineType_invokeLine {programId : JsString} (h : IsProgramId programId) (depth : ℕ) :
    lineType (invokeLine programId depth) = some .invoke :=
  lineType_of_parseLine (parseLine_invokeLine ⟨[], []⟩ h depth)

theorem lineType_ending {programId : JsString} (h : IsProgramId programId) {ending : Ending}
    (hending : ending.Printable) : lineType (ending.line programId) = some ending.type := by
  rw [lineType_of_parseLine (parseLine_ending ⟨[], []⟩ h hending)]
  cases ending <;> rfl

/-- A text that reads as a line of the runtime is taken for one. -/
theorem lineType_of_isMarker {programId text : JsString} (h : IsProgramId programId)
    (hline : OneLine text) (hmarker : IsMarker text) :
    ∃ type, lineType (namedLine programId text) = some type ∧ type ≠ .log ∧ type ≠ .data := by
  have hsome : (invokeMatch (namedLine programId text)).isSome ∨
      (successMatch (namedLine programId text)).isSome ∨
      (failureMatch (namedLine programId text)).isSome := by
    rcases hmarker with rfl | ⟨error, herror, rfl⟩ | ⟨digits, hne, hdigits, rfl⟩
    · exact .inr (.inl (Option.isSome_of_mem ((successMatch_eq_some h).mpr ⟨rfl, rfl⟩)))
    · exact .inr (.inr (Option.isSome_of_mem
        ((failureMatch_eq_some h).mpr ⟨rfl, oneLine_of_append hline herror, rfl⟩)))
    · exact .inl (Option.isSome_of_mem ((invokeMatch_eq_some h).mpr ⟨rfl, hne, hdigits, rfl⟩))
  rw [lineType]
  by_cases hinvoke : (invokeMatch (namedLine programId text)).isSome = true
  · exact ⟨.invoke, if_pos hinvoke, by decide, by decide⟩
  rw [if_neg hinvoke]
  by_cases hsuccess : (successMatch (namedLine programId text)).isSome = true
  · exact ⟨.success, if_pos hsuccess, by decide, by decide⟩
  rw [if_neg hsuccess]
  have hfailure := (hsome.resolve_left hinvoke).resolve_left hsuccess
  exact ⟨.failure, if_pos hfailure, by decide, by decide⟩

/-- A program's own line has its kind exactly where it does not read as one of the runtime. -/
theorem lineType_logLine {message : JsString} (h : OneLine message) :
    ∃ type, lineType (logLine message) = some type ∧ (type = .log ↔ ¬ IsMarker message) := by
  by_cases hmarker : IsMarker message
  · obtain ⟨type, htype, hlog, -⟩ := lineType_of_isMarker isProgramId_log h hmarker
    exact ⟨type, htype, fun heq => absurd heq hlog, fun hplain => absurd hmarker hplain⟩
  · exact ⟨.log, lineType_of_parseLine (parseLine_logLine ⟨[], []⟩ h hmarker),
      fun _ => hmarker, fun _ => rfl⟩

theorem lineType_dataLine {data : JsString} (h : OneLine data) :
    ∃ type, lineType (dataLine data) = some type ∧ (type = .data ↔ ¬ IsMarker data) := by
  by_cases hmarker : IsMarker data
  · obtain ⟨type, htype, -, hdata⟩ := lineType_of_isMarker isProgramId_data h hmarker
    exact ⟨type, htype, fun heq => absurd heq hdata, fun hplain => absurd hmarker hplain⟩
  · exact ⟨.data, lineType_of_parseLine (parseLine_dataLine ⟨[], []⟩ h hmarker),
      fun _ => hmarker, fun _ => rfl⟩

theorem length_lineTypes (t : Trace) : ∀ (depth : ℕ), t.Printable depth →
    ((t.render depth).filterMap lineType).length = t.types.length := by
  induction t with
  | done => intro _ _; rfl
  | log message rest ih =>
    rintro depth ⟨hline, hrest⟩
    obtain ⟨type, htype, -⟩ := lineType_logLine hline
    rw [Trace.render, List.filterMap_cons, htype, Trace.types, List.length_cons, List.length_cons,
      ih depth hrest]
  | data text rest ih =>
    rintro depth ⟨hline, hrest⟩
    obtain ⟨type, htype, -⟩ := lineType_dataLine hline
    rw [Trace.render, List.filterMap_cons, htype, Trace.types, List.length_cons, List.length_cons,
      ih depth hrest]
  | note line rest ih =>
    rintro depth ⟨hline, hrest⟩
    rw [Trace.render, List.filterMap_cons, hline, Trace.types, ih depth hrest]
  | call programId body ending rest ihbody ihrest =>
    rintro depth ⟨hid, -, hbody, hending, hrest⟩
    rw [Trace.render, List.filterMap_cons, lineType_invokeLine hid, List.filterMap_append,
      List.filterMap_cons, lineType_ending hid hending, Trace.types]
    simp only [List.length_cons, List.length_append, ihbody _ hbody, ihrest _ hrest]

theorem plain_of_lineTypes (t : Trace) : ∀ (depth : ℕ), t.Printable depth →
    (t.render depth).filterMap lineType = t.types → t.Plain := by
  induction t with
  | done => intro _ _ _; trivial
  | log message rest ih =>
    rintro depth ⟨hline, hrest⟩ h
    obtain ⟨type, htype, hiff⟩ := lineType_logLine hline
    rw [Trace.render, List.filterMap_cons, htype, Trace.types] at h
    obtain ⟨hhead, htail⟩ := List.cons.inj h
    exact ⟨hiff.mp hhead, ih depth hrest htail⟩
  | data text rest ih =>
    rintro depth ⟨hline, hrest⟩ h
    obtain ⟨type, htype, hiff⟩ := lineType_dataLine hline
    rw [Trace.render, List.filterMap_cons, htype, Trace.types] at h
    obtain ⟨hhead, htail⟩ := List.cons.inj h
    exact ⟨hiff.mp hhead, ih depth hrest htail⟩
  | note line rest ih =>
    rintro depth ⟨hline, hrest⟩ h
    rw [Trace.render, List.filterMap_cons, hline, Trace.types] at h
    exact ih depth hrest h
  | call programId body ending rest ihbody ihrest =>
    rintro depth ⟨hid, -, hbody, hending, hrest⟩ h
    rw [Trace.render, List.filterMap_cons, lineType_invokeLine hid, List.filterMap_append,
      List.filterMap_cons, lineType_ending hid hending, Trace.types] at h
    -- the body has as many kinds as it should, so the end of the program is where it should be
    have hsplit := List.append_inj (List.cons.inj h).2 (length_lineTypes body _ hbody)
    exact ⟨ihbody _ hbody hsplit.1, ihrest _ hrest (List.cons.inj hsplit.2).2⟩

/-- Of what a transaction has run, its log is parsed to just that, each event with the program that
ran and the depth it ran at, if and only if no program has written what reads as a line of the
runtime. -/
theorem parseProgramLogs_render_iff (t : Trace) (h : t.Printable 0) :
    parseProgramLogs (t.render 0) = t.events [] ↔ t.Plain := by
  constructor
  · intro heq
    apply plain_of_lineTypes t 0 h
    have htypes := types_foldl (t.render 0) ⟨[], []⟩
    rw [List.map_nil, List.nil_append] at htypes
    rw [← htypes, ← types_events t []]
    exact congrArg (List.map ParsedLogEvent.type) heq
  · intro hplain
    have hfold := foldl_render t [] [] h hplain
    rw [List.nil_append, List.length_nil] at hfold
    rw [parseProgramLogs, hfold]

/-- A program that calls another one, which fails. -/
def nestedCall : Trace :=
  .call (js "Outer") (.log (js "start") (.call (js "Inner") (.data (js "AQ==") .done)
    (.failed (js "custom program error: 0x1")) (.log (js "success") .done))) .succeeded .done

theorem parseProgramLogs_render_nestedCall :
    parseProgramLogs (nestedCall.render 0) ≠ nestedCall.events [] := by
  have hprogram : ∀ programId ∈ [js "Outer", js "Inner"], IsProgramId programId := by
    intro programId hprogramId
    simp only [List.mem_cons, List.not_mem_nil, or_false] at hprogramId
    rcases hprogramId with rfl | rfl <;> exact isProgramId_of_all (by decide +kernel)
  have hline : ∀ text ∈ [js "start", js "AQ==", js "custom program error: 0x1", js "success"],
      OneLine text := by
    intro text htext
    simp only [List.mem_cons, List.not_mem_nil, or_false] at htext
    rcases htext with rfl | rfl | rfl | rfl <;> exact oneLine_of_all (by decide +kernel)
  have hprintable : nestedCall.Printable 0 :=
    ⟨hprogram _ (by simp), by decide +kernel, ⟨hline _ (by simp),
      ⟨hprogram _ (by simp), by decide +kernel, ⟨hline _ (by simp), trivial⟩, hline _ (by simp),
        hline _ (by simp), trivial⟩⟩, trivial, trivial⟩
  intro h
  -- the last message of the outer program ends it
  have hplain := (parseProgramLogs_render_iff nestedCall hprintable).mp h
  exact hplain.1.2.2.1 (.inl rfl)

end Attestia.ChainObserver
