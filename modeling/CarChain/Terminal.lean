import CarChain.Commands
import CarChain.Lib.LineReader

/-!
# The loop of the client

The command loop of `list_client.c`: `fgets` takes a line of at most 1022 bytes
and its newline off the input, the newline is cut off, empty lines are skipped,
`quit` ends the loop and every other line goes to `processa_comando`.  The two
connections stay what they are while the loop runs; a stub is a function of the
state its server is in.  The input is executed as one sequence of lines
(`mainLoop_reads`), in which what was typed line by line comes in that order
(`mainLoop_typed`).
-/

namespace CarChain.Terminal
open CarChain.Record CarChain.Message CarChain.CarList CarChain.Skeleton CarChain.Stub
open CarChain.Handler CarChain.Wire CarChain.Remote CarChain.Words CarChain.LineReader
open CarChain.Commands

variable {σ : Type}

/-! ## The client -/

/-- A call of a stub: what it returns and the state after it, `none` while the
client waits. -/
abbrev Server (σ : Type) := Operation → σ → Option (Returned × σ)

/-- `head_server` and `tail_server`, which may be NULL. -/
structure Client (σ : Type) where
  headServer : Option (Server σ)
  tailServer : Option (Server σ)

def Client.server (client : Client σ) : End → Option (Server σ)
  | .head => client.headServer
  | .tail => client.tailServer

/-- What is printed, and the state after the call if there is one. -/
def react (client : Client σ) (s : σ) : Reaction → Option (List UInt8 × σ)
  | .print out => some (out, s)
  | .ask server op out =>
    match client.server server with
    | none => some ([], s)
    | some server => (server op s).map fun r => (out r.1, r.2)

def newline (b : UInt8) : Bool := b = 10

/-- The bytes put into `linha`, and the rest of the input; NULL at its end. -/
def fgets (size : Nat) (stdin : List UInt8) : Option (List UInt8 × List UInt8) :=
  match stdin with
  | [] => none
  | b :: rest => some (readBuffer newline (size - 1) (b :: rest))

/-- `linha[strcspn(linha, "\n")] = '\0'`. -/
def cutNewline (linha : List UInt8) : CString := cString (linha.takeWhile (!newline ·))

def command : List UInt8 := text "Command: "

def eof : List UInt8 := text "\nEOF/erro em stdin. A terminar...\n"

/-- `out` in front of what is printed later. -/
def after (out : List UInt8) (r : Option (List UInt8 × σ)) : Option (List UInt8 × σ) :=
  r.map fun r => (out ++ r.1, r.2)

theorem fgets_shorter {size : Nat} (hsize : 2 ≤ size) {stdin linha rest : List UInt8}
    (h : fgets size stdin = some (linha, rest)) : rest.length < stdin.length := by
  obtain ⟨room, rfl⟩ : ∃ room, size = room + 2 := ⟨size - 2, by omega⟩
  obtain ⟨buffers, hreads⟩ := @exists_reads _ newline (room + 1) (Nat.succ_pos _) stdin
  cases buffers with
  | nil =>
    cases hreads
    cases h
  | cons buffer buffers =>
    obtain ⟨b, src, rfl⟩ := List.exists_cons_of_ne_nil (hreads.src_ne_nil (Nat.succ_pos _))
    obtain ⟨src', hread, hrest⟩ := readBuffer_reads hreads
    have hne := (hreads.buffer_length (Nat.succ_pos _) buffer List.mem_cons_self).1
    have hlen := congrArg List.length hreads.flatten
    rw [List.flatten_cons, hrest.flatten, List.length_append] at hlen
    have hsome : fgets (room + 2) (b :: src) = some (buffer, src') := congrArg some hread
    rw [hsome] at h
    cases h
    have hpos := List.length_pos_iff.mpr hne
    omega

/-- The loop on what is left of the input. -/
def mainLoop (fl : Floats) (client : Client σ) (stdin : List UInt8) (s : σ) :
    Option (List UInt8 × σ) :=
  match h : fgets 1024 stdin with
  | none => some (command ++ eof, s)
  | some (linha, rest) =>
    have := fgets_shorter (by decide) h
    if strlen (cutNewline linha) = 0 then after command (mainLoop fl client rest s)
    else if (cutNewline linha).bytes = text "quit" then some (command, s)
    else
      match react client s (processaComando fl client.headServer.isSome client.tailServer.isSome
        (cutNewline linha)) with
      | none => none
      | some (out, s) => after (command ++ out) (mainLoop fl client rest s)
termination_by stdin.length

/-! ## Lines -/

/-- The loop on lines that were read. -/
def session (fl : Floats) (client : Client σ) : List CString → σ → Option (List UInt8 × σ)
  | [], s => some (command ++ eof, s)
  | linha :: linhas, s =>
    if strlen linha = 0 then after command (session fl client linhas s)
    else if linha.bytes = text "quit" then some (command, s)
    else
      match react client s
        (processaComando fl client.headServer.isSome client.tailServer.isSome linha) with
      | none => none
      | some (out, s) => after (command ++ out) (session fl client linhas s)

/-- The input is executed in the buffers it is read in. -/
theorem mainLoop_session (fl : Floats) (client : Client σ) {buffers : List (List UInt8)}
    {stdin : List UInt8} (h : Reads newline 1023 buffers stdin) (s : σ) :
    mainLoop fl client stdin s = session fl client (buffers.map cutNewline) s := by
  induction buffers generalizing stdin s with
  | nil =>
    cases h
    rw [mainLoop]
    rfl
  | cons buffer buffers ih =>
    obtain ⟨b, src, rfl⟩ := List.exists_cons_of_ne_nil (h.src_ne_nil (by decide))
    obtain ⟨rest, hread, hrest⟩ := readBuffer_reads h
    have hfgets : fgets 1024 (b :: src) = some (buffer, rest) := congrArg some hread
    rw [mainLoop]
    split
    · rename_i hnone
      rw [hfgets] at hnone
      cases hnone
    · rename_i linha rest' hsome
      rw [hfgets] at hsome
      cases hsome
      rw [List.map_cons, session, ih hrest]
      split
      · rfl
      · split
        · rfl
        · split
          · rfl
          · rw [ih hrest]

/-- **The input is executed as one sequence of lines**: no byte is lost or read
twice, and the lines are what the input alone determines. -/
theorem mainLoop_reads (fl : Floats) (client : Client σ) (stdin : List UInt8) (s : σ) :
    ∃ buffers, Reads newline 1023 buffers stdin ∧ buffers.flatten = stdin ∧
      (∀ buffer ∈ buffers, buffer ≠ [] ∧ buffer.length ≤ 1023) ∧
      (∀ buffers', Reads newline 1023 buffers' stdin → buffers' = buffers) ∧
      mainLoop fl client stdin s = session fl client (buffers.map cutNewline) s := by
  obtain ⟨buffers, h⟩ := @exists_reads _ newline 1023 (by decide) stdin
  exact ⟨buffers, h, h.flatten, h.buffer_length (by decide), fun _ h' => h'.unique (by decide) h,
    mainLoop_session fl client h s⟩

/-! ## Typed scripts -/

/-- A command is typed on a line of its own that fits the buffer. -/
structure TypedAs (c : Comando) (linha : CString) : Prop where
  fits : c.Fits
  short : strlen linha ≤ 1022
  oneLine : ∀ b ∈ linha.bytes, newline b = false
  spaced : ∃ extra, Spaced delim (c.words ++ extra) linha.bytes

/-- The commands one after the other, and `quit`. -/
def perform (fl : Floats) (client : Client σ) : List Comando → σ → Option (List UInt8 × σ)
  | [], s => some (command, s)
  | c :: cs, s =>
    match react client s (c.reaction fl) with
    | none => none
    | some (out, s) => after (command ++ out) (perform fl client cs s)

def quit : CString := cString (text "quit")

/-- The lines with their newlines, and `quit` on the last one. -/
def script (linhas : List CString) : List UInt8 :=
  (linhas ++ [quit]).flatMap fun linha => linha.bytes ++ [10]

theorem cutNewline_append {linha : CString} (h : ∀ b ∈ linha.bytes, newline b = false) :
    cutNewline (linha.bytes ++ [10]) = linha := by
  have hgap : StartsGap newline [10] := by
    intro b hb
    cases hb
    rfl
  rw [cutNewline, takeWhile_append_word h hgap, Decoding.cString_bytes]

theorem words_ne_quit (c : Comando) : ∀ word ∈ c.words.head?, word ≠ text "quit" := by
  intro word hw
  cases c <;> cases hw <;> decide +kernel

/-- A line on which a command is typed is neither empty nor `quit`. -/
theorem TypedAs.isCommand {c : Comando} {linha : CString} (h : TypedAs c linha) :
    strlen linha ≠ 0 ∧ linha.bytes ≠ text "quit" := by
  obtain ⟨extra, hspaced⟩ := h.spaced
  obtain ⟨word, words, hwords⟩ : ∃ word words, c.words = word :: words := by
    cases c <;> exact ⟨_, _, rfl⟩
  rw [hwords, List.cons_append] at hspaced
  obtain ⟨hword, hin⟩ := hspaced.word_mem List.mem_cons_self
  constructor
  · intro hzero
    have hlen := hin.length_le
    have hpos := List.length_pos_iff.mpr hword.ne_nil
    unfold strlen at hzero
    omega
  · intro hquit
    have hone : Spaced delim [text "quit"] (text "quit") := spaced_singleton (by decide +kernel)
    rw [hquit] at hspaced
    have hhead := List.head_eq_of_cons_eq (hspaced.unique hone)
    exact words_ne_quit c word (by rw [hwords]; rfl) hhead

/-- The lines of a script, whatever follows its `quit`. -/
theorem session_script {fl : Floats} {head tail : Server σ} {typed : List (Comando × CString)}
    (h : ∀ line ∈ typed, TypedAs line.1 line.2) (more : List CString) (s : σ) :
    session fl ⟨some head, some tail⟩ (typed.map Prod.snd ++ quit :: more) s =
      perform fl ⟨some head, some tail⟩ (typed.map Prod.fst) s := by
  induction typed generalizing s with
  | nil =>
    rw [List.map_nil, List.nil_append, session, if_neg (by decide +kernel),
      if_pos (by decide +kernel)]
    rfl
  | cons line typed ih =>
    rw [List.forall_mem_cons] at h
    obtain ⟨hne, hquit⟩ := h.1.isCommand
    obtain ⟨extra, hspaced⟩ := h.1.spaced
    have hreact := processaComando_typed fl h.1.fits hspaced
    rw [List.map_cons, List.map_cons, List.cons_append, session, if_neg hne, if_neg hquit, perform]
    dsimp only [Option.isSome_some]
    rw [hreact]
    split
    · rfl
    · rw [ih h.2]

theorem reads_script {linhas : List CString}
    (h : ∀ linha ∈ linhas, strlen linha ≤ 1022 ∧ ∀ b ∈ linha.bytes, newline b = false)
    {buffers : List (List UInt8)} {rest : List UInt8} (hrest : Reads newline 1023 buffers rest) :
    Reads newline 1023 (linhas.map (·.bytes ++ [10]) ++ buffers)
      (linhas.flatMap (·.bytes ++ [10]) ++ rest) := by
  have hlines : ∀ line ∈ linhas.map CString.bytes,
      (∀ b ∈ line, newline b = false) ∧ line.length < 1023 := by
    intro line hl
    obtain ⟨linha, hin, rfl⟩ := List.mem_map.mp hl
    exact ⟨(h linha hin).2, Nat.lt_succ_of_le (h linha hin).1⟩
  have hreads := reads_lines (a := 10) rfl hlines hrest
  rwa [List.map_map, List.flatMap_map] at hreads

/-- **A script is performed command by command**: each line is one call with the
arguments that were typed, in the order they were typed. -/
theorem mainLoop_typed {fl : Floats} {head tail : Server σ} {typed : List (Comando × CString)}
    (h : ∀ line ∈ typed, TypedAs line.1 line.2) (rest : List UInt8) (s : σ) :
    mainLoop fl ⟨some head, some tail⟩ (script (typed.map Prod.snd) ++ rest) s =
      perform fl ⟨some head, some tail⟩ (typed.map Prod.fst) s := by
  have hshort : ∀ linha ∈ typed.map Prod.snd ++ [quit],
      strlen linha ≤ 1022 ∧ ∀ b ∈ linha.bytes, newline b = false := by
    intro linha hin
    rcases List.mem_append.mp hin with hl | hq
    · obtain ⟨line, hline, rfl⟩ := List.mem_map.mp hl
      exact ⟨(h line hline).short, (h line hline).oneLine⟩
    · rw [List.mem_singleton.mp hq]
      decide +kernel
  obtain ⟨buffers, hrest⟩ := @exists_reads _ newline 1023 (by decide) rest
  have hcut : (typed.map Prod.snd ++ [quit]).map
      (cutNewline ∘ fun linha => linha.bytes ++ [10]) = typed.map Prod.snd ++ [quit] := by
    have hsame : ∀ linha ∈ typed.map Prod.snd ++ [quit],
        (cutNewline ∘ fun linha => linha.bytes ++ [10]) linha = id linha :=
      fun linha hin => cutNewline_append (hshort linha hin).2
    rw [List.map_congr_left hsame, List.map_id]
  rw [script, mainLoop_session fl _ (reads_script hshort hrest), List.map_append, List.map_map,
    hcut, List.append_assoc, List.singleton_append, session_script h]

/-- A server that is a list in memory. -/
def localServer : Server Cars := fun op list => some (localCall list op)

/-- The words of a command and what else is typed, each after a blank. -/
def typedLine (c : Comando) (extra : List (List UInt8)) : CString :=
  cString (typed 32 (c.words ++ extra))

/-- A car is added, and the number of cars asked for with a word too many. -/
def sampleScript : List (Comando × CString) :=
  [(.add [109, 49] 2020 (text "10") 1 1, typedLine (.add [109, 49] 2020 (text "10") 1 1) []),
    (.size, typedLine .size [text "agora"])]

theorem typedAs_typedLine {c : Comando} {extra : List (List UInt8)} (hfits : c.Fits)
    (hwords : ∀ word ∈ c.words ++ extra, IsWord delim word)
    (hbytes : (typedLine c extra).bytes = typed 32 (c.words ++ extra))
    (hshort : strlen (typedLine c extra) ≤ 1022)
    (hline : ∀ b ∈ (typedLine c extra).bytes, newline b = false) :
    TypedAs c (typedLine c extra) :=
  ⟨hfits, hshort, hline, extra, hbytes ▸ spaced_typed rfl hwords⟩

theorem mainLoop_typed_sampleScript :
    mainLoop sampleFloats ⟨some localServer, some localServer⟩
        (script (sampleScript.map Prod.snd) ++ text "help\n") listCreate =
      perform sampleFloats ⟨some localServer, some localServer⟩ (sampleScript.map Prod.fst)
        listCreate := by
  apply mainLoop_typed
  rw [sampleScript, List.forall_mem_cons, List.forall_mem_singleton]
  exact ⟨typedAs_typedLine (by decide) (by decide +kernel) (by decide +kernel) (by decide +kernel)
      (by decide +kernel),
    typedAs_typedLine (by decide) (by decide +kernel) (by decide +kernel) (by decide +kernel)
      (by decide +kernel)⟩

/-! ## What a session sends -/

/-- If the calls of typed commands return and keep something, so does the loop. -/
theorem session_keeps {fl : Floats} {client : Client σ} {I : σ → Prop}
    (hI : ∀ server f, client.server server = some f → ∀ op, Asks 1023 server op →
      ∀ s, I s → ∃ r, f op s = some r ∧ I r.2)
    {linhas : List CString} (hlen : ∀ linha ∈ linhas, strlen linha ≤ 1023) {s : σ} (hs : I s) :
    ∃ r, session fl client linhas s = some r ∧ I r.2 := by
  induction linhas generalizing s with
  | nil => exact ⟨_, rfl, hs⟩
  | cons linha linhas ih =>
    rw [List.forall_mem_cons] at hlen
    have hafter : ∀ out s', I s' →
        ∃ r, after out (session fl client linhas s') = some r ∧ I r.2 := by
      intro out s' hs'
      obtain ⟨r, hr, hkept⟩ := ih hlen.2 hs'
      exact ⟨(out ++ r.1, r.2), by rw [hr]; rfl, hkept⟩
    rw [session]
    split
    · exact hafter command s hs
    · split
      · exact ⟨_, rfl, hs⟩
      · have hreact : ∃ r, react client s (processaComando fl client.headServer.isSome
            client.tailServer.isSome linha) = some r ∧ I r.2 := by
          cases hp : processaComando fl client.headServer.isSome client.tailServer.isSome linha with
          | print out => exact ⟨_, rfl, hs⟩
          | ask server op out =>
            have hsent := (processaComando_sends hp).mono hlen.1
            cases hf : client.server server with
            | none => exact ⟨([], s), by rw [react, hf], hs⟩
            | some f =>
              obtain ⟨r, hr, hkept⟩ := hI server f hf op hsent s hs
              exact ⟨(out r.1, r.2), by rw [react, hf]; dsimp only; rw [hr]; rfl, hkept⟩
        obtain ⟨r, hr, hkept⟩ := hreact
        rw [hr]
        exact hafter (command ++ r.1) r.2 hkept

/-- Servers that note each call and answer as they like; either connection may be
NULL. -/
def noting (head tail : Bool) (answer : End → Operation → List (End × Operation) → Returned) :
    Client (List (End × Operation)) where
  headServer :=
    if head then some fun op log => some (answer .head op log, log ++ [(.head, op)]) else none
  tailServer :=
    if tail then some fun op log => some (answer .tail op log, log ++ [(.tail, op)]) else none

def AllAccepted (log : List (End × Operation)) : Prop := ∀ call ∈ log, Accepted call.1 call.2

theorem strlen_cutNewline {buffer : List UInt8} {len : Nat} (h : buffer.length ≤ len) :
    strlen (cutNewline buffer) ≤ len := by
  have h₁ := (List.takeWhile_prefix (!newline ·) (l := buffer)).length_le
  have h₂ := (List.takeWhile_prefix (· ≠ 0) (l := buffer.takeWhile (!newline ·))).length_le
  show (List.takeWhile (· ≠ 0) (buffer.takeWhile (!newline ·))).length ≤ len
  omega

/-- **Whatever is typed and whatever the servers answer**, each call goes to the
server it is for, with a request that fits a frame and that no server refuses. -/
theorem mainLoop_sends (fl : Floats) (head tail : Bool)
    (answer : End → Operation → List (End × Operation) → Returned) (stdin : List UInt8) :
    ∃ out log, mainLoop fl (noting head tail answer) stdin [] = some (out, log) ∧
      AllAccepted log := by
  obtain ⟨buffers, hreads⟩ := @exists_reads _ newline 1023 (by decide) stdin
  rw [mainLoop_session fl _ hreads]
  have hkeeps : ∃ r, session fl (noting head tail answer) (buffers.map cutNewline) [] = some r ∧
      AllAccepted r.2 := by
    apply session_keeps (I := AllAccepted)
    · intro server f hf op hop log hlog
      refine ⟨(answer server op log, log ++ [(server, op)]), ?_, ?_⟩
      · cases server with
        | head =>
          obtain ⟨_, hf⟩ := Option.ite_none_right_eq_some.mp hf
          cases hf
          rfl
        | tail =>
          obtain ⟨_, hf⟩ := Option.ite_none_right_eq_some.mp hf
          cases hf
          rfl
      · intro call hc
        rcases List.mem_append.mp hc with hold | hnew
        · exact hlog call hold
        · rw [List.mem_singleton.mp hnew]
          exact hop.accepted
    · intro linha hl
      obtain ⟨buffer, hb, rfl⟩ := List.mem_map.mp hl
      exact strlen_cutNewline (hreads.buffer_length (by decide) buffer hb).2
    · exact fun _ hc => absurd hc List.not_mem_nil
  obtain ⟨⟨out, log⟩, hr, hlog⟩ := hkeeps
  exact ⟨out, log, hr, hlog⟩

end CarChain.Terminal
