import CarChain.Addresses
import CarChain.Terminal

/-!
# The log

`server_log.c`: each call of `write_log` appends a line of words, under a mutex,
so where `fopen` succeeds the file is the lines of the calls in their order.
Some words are left out: a brand or a year that is 0, and all after the event
when the opcode is 0.  Still two sequences of calls that leave the same file have
logged the same, as long as no model has a blank in it and no year is 0
(`log_reads_back`).
-/

namespace CarChain.Log
open CarChain.Record CarChain.Message CarChain.Decimal CarChain.Words CarChain.LineReader
open CarChain.Remote CarChain.Stub
open CarChain.Commands (text delim)
open CarChain.Terminal (newline)

/-! ## `server_log.c` -/

@[reducible, simp] def opOrder : Int := 70
@[reducible, simp] def ctYear : Int := 30

/-- A `switch` over an enumeration: the text of its case, or that of `default`. -/
def translate (cases : List (Int × String)) (default : String) (x : Int) : List UInt8 :=
  match cases.find? fun c => c.1 = x with
  | some c => text c.2
  | none => text default

def translateOpCode (opcode : Int) : List UInt8 :=
  translate [(opBad, "OP_BAD"), (opAdd, "OP_ADD"), (opGet, "OP_GET"), (opDel, "OP_DEL"),
    (opSize, "OP_SIZE"), (opGetModels, "OP_GETMODELS"), (opGetListByTear, "OP_GETLISTBYTEAR"),
    (opOrder, "OP_ORDER"), (opBusy, "OP_BUSY"), (opReady, "OP_READY"), (opError, "OP_ERROR")]
    "UNKNOWN_OP" opcode

/-- `CT_NONE` is not among the cases. -/
def translateOpCType (cType : Int) : List UInt8 :=
  translate [(ctBad, "CT_BAD"), (ctData, "CT_DATA"), (ctMarca, "CT_MARCA"), (ctYear, "CT_YEAR"),
    (ctModel, "CT_MODEL"), (ctResult, "CT_RESULT"), (ctList, "CT_LIST")] "UNKNOWN_CT" cType

def translateMarca (marca : Int) : List UInt8 :=
  translate [(0, "Toyota"), (1, "Bmw"), (2, "Renault"), (3, "Audi"), (4, "Mercedes")]
    "UNKNOWN_MARCA" marca

/-- The address of a socket as it is printed. -/
def makeClientAddrPort (ip : CString) (port : Nat) : List UInt8 := ip.bytes ++ 58 :: decimal port

/-- The arguments of `write_log`, with those of `make_client_addr_port`. -/
structure Entry where
  timestamp : Int
  ip : CString
  port : Nat
  eventType : CString
  opcode : Int
  cType : Int
  argument : Option Data

/-- The brand, the model and the year, each behind a blank. -/
def argumentText (argument : Data) : List UInt8 :=
  (if argument.marca ≠ 0 then 32 :: translateMarca argument.marca else []) ++
    32 :: argument.modelo.bytes ++
    (if argument.ano ≠ 0 then 32 :: signed argument.ano else [])

/-- What a call appends to the file, without its newline. -/
def logLine (e : Entry) : List UInt8 :=
  signed e.timestamp ++ 32 :: makeClientAddrPort e.ip e.port ++ 32 :: e.eventType.bytes ++
    (if e.opcode ≠ 0 then
      32 :: translateOpCode e.opcode ++ 32 :: translateOpCType e.cType
    else []) ++
    match e.argument with
    | none => []
    | some argument => argumentText argument

/-- The file after these calls. -/
def logFile (entries : List Entry) : List UInt8 := entries.flatMap fun e => logLine e ++ [10]

/-! ## The words of a line -/

def opcodes : List Int :=
  [opBad, opAdd, opGet, opDel, opSize, opGetModels, opGetListByTear, opOrder, opBusy, opReady,
    opError]

/-- What the program logs: an address of digits and dots, an event of one word;
without an opcode there is no argument, and an argument is a car with a brand, a
year and a model of one word. -/
structure Plain (e : Entry) : Prop where
  ip : ∀ b ∈ e.ip.bytes, IsDigit b ∨ b = 46
  event : IsWord delim e.eventType.bytes
  bare : e.opcode = 0 → e.argument = none
  known : e.opcode ∈ opcodes
  marca : ∀ d ∈ e.argument, 0 ≤ d.marca ∧ d.marca ≤ 4
  ano : ∀ d ∈ e.argument, d.ano ≠ 0
  modelo : ∀ d ∈ e.argument, IsWord delim d.modelo.bytes

def argumentWords (argument : Data) : List (List UInt8) :=
  (if argument.marca ≠ 0 then [translateMarca argument.marca] else []) ++
    [argument.modelo.bytes, signed argument.ano]

def lineWords (e : Entry) : List (List UInt8) :=
  [signed e.timestamp, makeClientAddrPort e.ip e.port, e.eventType.bytes] ++
    (if e.opcode ≠ 0 then [translateOpCode e.opcode, translateOpCType e.cType] else []) ++
    match e.argument with
    | none => []
    | some argument => argumentWords argument

/-- A blank in front of the line, and it is its words with a blank before each. -/
theorem typed_lineWords {e : Entry} (h : Plain e) : typed 32 (lineWords e) = 32 :: logLine e := by
  have hargument : ∀ d ∈ e.argument, typed 32 (argumentWords d) = argumentText d := by
    intro d hd
    unfold argumentWords argumentText
    rw [if_pos (h.ano d hd)]
    split <;> simp [typed]
  unfold lineWords logLine
  cases harg : e.argument with
  | none => split <;> simp [typed]
  | some d =>
    have hd := hargument d (by rw [harg]; rfl)
    unfold typed at hd ⊢
    split <;> simp [hd]

theorem isDigit_free {b : UInt8} (h : IsDigit b) : delim b = false := by
  obtain ⟨hle, _⟩ := h
  have hb : 48 ≤ b.toNat := UInt8.le_iff_toNat_le.mp hle
  simp only [delim, Bool.or_eq_false_iff, decide_eq_false_iff_not, ← UInt8.toNat_inj,
    UInt8.reduceToNat]
  omega

theorem isWord_signed (x : Int) : IsWord delim (signed x) := by
  refine ⟨signed_ne_nil x, fun b hb => ?_⟩
  rcases mem_signed hb with rfl | hd
  · rfl
  · exact isDigit_free hd

theorem isWord_clientAddrPort {e : Entry} (h : Plain e) :
    IsWord delim (makeClientAddrPort e.ip e.port) := by
  refine ⟨by simp [makeClientAddrPort], fun b hb => ?_⟩
  rcases List.mem_append.mp hb with hip | hport
  · rcases h.ip b hip with hd | rfl
    · exact isDigit_free hd
    · rfl
  · rcases List.mem_cons.mp hport with rfl | hd
    · rfl
    · exact isDigit_free (isDigit_decimal hd)

theorem isWord_translate {cases : List (Int × String)} {default : String}
    (h : ∀ c ∈ cases, IsWord delim (text c.2)) (hdefault : IsWord delim (text default)) (x : Int) :
    IsWord delim (translate cases default x) := by
  unfold translate
  split
  · rename_i c hc
    exact h c (List.mem_of_find?_eq_some hc)
  · exact hdefault

theorem isWord_translateOpCode (opcode : Int) : IsWord delim (translateOpCode opcode) :=
  isWord_translate (by decide +kernel) (by decide +kernel) opcode

theorem isWord_translateOpCType (cType : Int) : IsWord delim (translateOpCType cType) :=
  isWord_translate (by decide +kernel) (by decide +kernel) cType

theorem isWord_translateMarca (marca : Int) : IsWord delim (translateMarca marca) :=
  isWord_translate (by decide +kernel) (by decide +kernel) marca

theorem isWord_lineWords {e : Entry} (h : Plain e) : ∀ word ∈ lineWords e, IsWord delim word := by
  intro word hw
  unfold lineWords at hw
  rcases List.mem_append.mp hw with hw | hw
  · rcases List.mem_append.mp hw with hw | hw
    · simp only [List.mem_cons, List.not_mem_nil, or_false] at hw
      rcases hw with rfl | rfl | rfl
      · exact isWord_signed _
      · exact isWord_clientAddrPort h
      · exact h.event
    · split at hw
      · simp only [List.mem_cons, List.not_mem_nil, or_false] at hw
        rcases hw with rfl | rfl
        · exact isWord_translateOpCode _
        · exact isWord_translateOpCType _
      · cases hw
  · cases harg : e.argument with
    | none =>
      rw [harg] at hw
      cases hw
    | some d =>
      rw [harg] at hw
      have hmodelo := h.modelo d (by rw [harg]; rfl)
      unfold argumentWords at hw
      rcases List.mem_append.mp hw with hw | hw
      · split at hw
        · rw [List.mem_singleton.mp hw]
          exact isWord_translateMarca _
        · cases hw
      · simp only [List.mem_cons, List.not_mem_nil, or_false] at hw
        rcases hw with rfl | rfl
        · exact hmodelo
        · exact isWord_signed _

/-- The words of a line are what the line alone determines. -/
theorem lineWords_of_logLine {e e' : Entry} (h : Plain e) (h' : Plain e')
    (heq : logLine e = logLine e') : lineWords e = lineWords e' := by
  have hs : Spaced delim (lineWords e) (32 :: logLine e) := by
    rw [← typed_lineWords h]
    exact spaced_typed rfl (isWord_lineWords h)
  have hs' : Spaced delim (lineWords e') (32 :: logLine e) := by
    rw [heq, ← typed_lineWords h']
    exact spaced_typed rfl (isWord_lineWords h')
  exact hs.unique hs'

/-! ## What the program logs -/

/-- The lines `CONNECT` and `CLOSE`. -/
def sessionEntry (timestamp : Int) (ip : CString) (port : Nat) (eventType : CString) : Entry :=
  ⟨timestamp, ip, port, eventType, 0, 0, none⟩

/-- The line of a stub before it sends, and of `handle_client` before it takes
`list_mutex`. -/
def requestEntry (timestamp : Int) (ip : CString) (port : Nat) (eventType : CString)
    (msg : MessageT) : Entry :=
  ⟨timestamp, ip, port, eventType, msg.opcode, msg.cType, msg.data⟩

section

variable {timestamp : Int} {ip : CString} {port : Nat} {eventType : CString}
  (hip : ∀ b ∈ ip.bytes, IsDigit b ∨ b = 46) (hevent : IsWord delim eventType.bytes)

include hip hevent

theorem plain_sessionEntry : Plain (sessionEntry timestamp ip port eventType) :=
  ⟨hip, hevent, fun _ => rfl, List.mem_cons_self, nofun, nofun, nofun⟩

/-- The requests of the stubs, with a car whose model is one word. -/
theorem plain_requestEntry {op : Operation} {req : MessageT} (hreq : request op = some req)
    (hcar : ∀ car, op = .add (some car) → car.Valid ∧ IsWord delim (modeloText car).bytes) :
    Plain (requestEntry timestamp ip port eventType req) := by
  cases op with
  | add car =>
    obtain ⟨car, rfl, rfl⟩ := Option.map_eq_some_iff.mp hreq
    obtain ⟨hvalid, hmodelo⟩ := hcar car rfl
    refine ⟨hip, hevent, nofun, (by decide : opAdd ∈ opcodes), ?_, ?_, ?_⟩
    · rintro d ⟨⟩
      exact hvalid.marca
    · rintro d ⟨⟩
      have hano := hvalid.ano
      show car.ano ≠ 0
      omega
    · rintro d ⟨⟩
      exact hmodelo
  | removeByModel modelo =>
    obtain ⟨model, rfl, rfl⟩ := Option.map_eq_some_iff.mp hreq
    exact ⟨hip, hevent, nofun, (by decide : opDel ∈ opcodes), nofun, nofun, nofun⟩
  | getByMarca _ =>
    cases hreq
    exact ⟨hip, hevent, nofun, (by decide : opGet ∈ opcodes), nofun, nofun, nofun⟩
  | getByYear _ =>
    cases hreq
    exact ⟨hip, hevent, nofun, (by decide : opGetListByTear ∈ opcodes), nofun, nofun, nofun⟩
  | size =>
    cases hreq
    exact ⟨hip, hevent, nofun, (by decide : opSize ∈ opcodes), nofun, nofun, nofun⟩
  | getModelList =>
    cases hreq
    exact ⟨hip, hevent, nofun, (by decide : opGetModels ∈ opcodes), nofun, nofun, nofun⟩

end

/-! ## Reading it back -/

/-- What a line shows of its call: the opcode and the content type by their
words, the latter only with an opcode, and of a car all but price and fuel. -/
structure Seen where
  timestamp : Int
  ip : CString
  port : Nat
  eventType : CString
  opcode : Int
  cType : List UInt8
  argument : Option (Int × CString × Int)
  deriving DecidableEq

def seen (e : Entry) : Seen where
  timestamp := e.timestamp
  ip := e.ip
  port := e.port
  eventType := e.eventType
  opcode := e.opcode
  cType := if e.opcode ≠ 0 then translateOpCType e.cType else []
  argument := e.argument.map fun d => (d.marca, d.modelo, d.ano)

theorem bytes_injective {s t : CString} (h : s.bytes = t.bytes) : s = t := by
  cases s
  cases t
  exact (CString.mk.injEq ..).mpr h

theorem clientAddrPort_injective {e e' : Entry} (h : Plain e) (h' : Plain e')
    (heq : makeClientAddrPort e.ip e.port = makeClientAddrPort e'.ip e'.port) :
    e.ip = e'.ip ∧ e.port = e'.port := by
  have hcolon : ∀ {e : Entry}, Plain e → 58 ∉ e.ip.bytes := by
    intro e h hin
    rcases h.ip 58 hin with hd | hdot
    · revert hd
      decide
    · cases hdot
  have hsplit := congrArg Connect.strchrColon heq
  rw [makeClientAddrPort, makeClientAddrPort, Addresses.strchrColon_append (hcolon h),
    Addresses.strchrColon_append (hcolon h'), Option.some.injEq, Prod.mk.injEq] at hsplit
  exact ⟨bytes_injective hsplit.1, decimal_injective hsplit.2⟩

theorem translateOpCode_injective : ∀ op ∈ opcodes, ∀ op' ∈ opcodes,
    translateOpCode op = translateOpCode op' → op = op' := by
  decide +kernel

theorem translateMarca_injective {m m' : Int} (h : 0 ≤ m ∧ m ≤ 4) (h' : 0 ≤ m' ∧ m' ≤ 4)
    (heq : translateMarca m = translateMarca m') : m = m' := by
  have hall : ∀ m ∈ ([0, 1, 2, 3, 4] : List Int), ∀ m' ∈ ([0, 1, 2, 3, 4] : List Int),
      translateMarca m = translateMarca m' → m = m' := by
    decide +kernel
  have hmem : ∀ {m : Int}, 0 ≤ m ∧ m ≤ 4 → m ∈ ([0, 1, 2, 3, 4] : List Int) := by
    intro m hm
    simp only [List.mem_cons, List.not_mem_nil, or_false]
    omega
  exact hall m (hmem h) m' (hmem h') heq

/-- A missing brand shows by the number of words. -/
theorem argumentWords_injective {d d' : Data} (h : 0 ≤ d.marca ∧ d.marca ≤ 4)
    (h' : 0 ≤ d'.marca ∧ d'.marca ≤ 4) (heq : argumentWords d = argumentWords d') :
    (d.marca, d.modelo, d.ano) = (d'.marca, d'.modelo, d'.ano) := by
  unfold argumentWords at heq
  by_cases hm : d.marca = 0
  · by_cases hm' : d'.marca = 0
    · simp only [hm, hm', ne_eq, not_true_eq_false, if_false, List.nil_append, List.cons.injEq,
        and_true] at heq
      rw [hm, hm', bytes_injective heq.1, signed_injective heq.2]
    · have hlen := congrArg List.length heq
      simp [hm, hm'] at hlen
  · by_cases hm' : d'.marca = 0
    · have hlen := congrArg List.length heq
      simp [hm, hm'] at hlen
    · simp only [hm, hm', ne_eq, not_false_eq_true, if_true, List.cons_append, List.nil_append,
        List.cons.injEq, and_true] at heq
      rw [translateMarca_injective h h' heq.1, bytes_injective heq.2.1, signed_injective heq.2.2]

theorem argumentWords_ne_nil (d : Data) : argumentWords d ≠ [] := by
  simp [argumentWords]

theorem seen_of_lineWords {e e' : Entry} (h : Plain e) (h' : Plain e')
    (heq : lineWords e = lineWords e') : seen e = seen e' := by
  unfold lineWords at heq
  simp only [List.cons_append, List.nil_append, List.cons.injEq] at heq
  obtain ⟨htime, haddr, hevent, hrest⟩ := heq
  obtain ⟨hip, hport⟩ := clientAddrPort_injective h h' haddr
  have hop : e.opcode = e'.opcode ∧ (seen e).cType = (seen e').cType ∧
      (seen e).argument = (seen e').argument := by
    by_cases hz : e.opcode = 0
    · by_cases hz' : e'.opcode = 0
      · simp [seen, hz, hz', h.bare hz, h'.bare hz']
      · simp [hz, hz', h.bare hz] at hrest
    · by_cases hz' : e'.opcode = 0
      · simp [hz, hz', h'.bare hz'] at hrest
      · simp only [hz, hz', ne_eq, not_false_eq_true, if_true, List.cons_append, List.nil_append,
          List.cons.injEq] at hrest
        obtain ⟨hcode, htype, harguments⟩ := hrest
        refine ⟨translateOpCode_injective _ h.known _ h'.known hcode, ?_, ?_⟩
        · simp [seen, hz, hz', htype]
        · unfold seen
          dsimp only
          cases ha : e.argument with
          | none =>
            cases ha' : e'.argument with
            | none => rfl
            | some d' =>
              rw [ha, ha'] at harguments
              exact absurd harguments.symm (argumentWords_ne_nil d')
          | some d =>
            cases ha' : e'.argument with
            | none =>
              rw [ha, ha'] at harguments
              exact absurd harguments (argumentWords_ne_nil d)
            | some d' =>
              rw [ha, ha'] at harguments
              exact congrArg some (argumentWords_injective (h.marca d (by rw [ha]; rfl))
                (h'.marca d' (by rw [ha']; rfl)) harguments)
  obtain ⟨hcode, htype, hargument⟩ := hop
  rw [Seen.mk.injEq]
  exact ⟨signed_injective htime, hip, hport, bytes_injective hevent, hcode, htype, hargument⟩

/-- No line has a newline in it. -/
theorem newline_logLine {e : Entry} (h : Plain e) : ∀ b ∈ logLine e, newline b = false := by
  intro b hb
  have hin : b ∈ typed 32 (lineWords e) := by
    rw [typed_lineWords h]
    exact List.mem_cons_of_mem _ hb
  obtain ⟨word, hw, hb⟩ := List.mem_flatMap.mp hin
  rcases List.mem_cons.mp hb with rfl | hb
  · rfl
  · have hfree := (isWord_lineWords h word hw).free b hb
    simp only [delim, Bool.or_eq_false_iff] at hfree
    exact hfree.2

theorem reads_logFile {entries : List Entry} (h : ∀ e ∈ entries, Plain e) {room : Nat}
    (hroom : (logFile entries).length < room) :
    Reads newline room ((entries.map logLine).map (· ++ [10])) (logFile entries) := by
  have hlines : ∀ line ∈ entries.map logLine,
      (∀ b ∈ line, newline b = false) ∧ line.length < room := by
    intro line hl
    obtain ⟨e, he, rfl⟩ := List.mem_map.mp hl
    have hin : logLine e ++ [10] ∈ entries.map fun e => logLine e ++ [10] := List.mem_map_of_mem he
    have hle := (List.sublist_flatten_of_mem hin).length_le
    rw [← List.flatMap_def, List.length_append] at hle
    refine ⟨newline_logLine (h e he), ?_⟩
    unfold logFile at hroom
    omega
  have hdone : Reads newline room [] [] := .done
  have hreads := reads_lines (a := 10) rfl hlines hdone
  rwa [List.append_nil, List.append_nil, List.flatMap_map] at hreads

theorem seen_of_lines {entries entries' : List Entry} (h : ∀ e ∈ entries, Plain e)
    (h' : ∀ e ∈ entries', Plain e) (heq : entries.map logLine = entries'.map logLine) :
    entries.map seen = entries'.map seen := by
  induction entries generalizing entries' with
  | nil =>
    cases entries' with
    | nil => rfl
    | cons e' entries' => cases heq
  | cons e entries ih =>
    cases entries' with
    | nil => cases heq
    | cons e' entries' =>
      rw [List.forall_mem_cons] at h h'
      rw [List.map_cons, List.map_cons, List.cons.injEq] at heq
      have hwords := lineWords_of_logLine h.1 h'.1 heq.1
      rw [List.map_cons, List.map_cons, seen_of_lineWords h.1 h'.1 hwords, ih h.2 h'.2 heq.2]

/-- **The log reads back.**  Two sequences of calls that leave the same file are
the same in what they logged, call by call. -/
theorem log_reads_back {entries entries' : List Entry} (h : ∀ e ∈ entries, Plain e)
    (h' : ∀ e ∈ entries', Plain e) (hfile : logFile entries = logFile entries') :
    entries.map seen = entries'.map seen := by
  have hreads := reads_logFile h (Nat.lt_succ_self _)
  have hreads' := reads_logFile h' (hfile ▸ Nat.lt_succ_self (logFile entries).length)
  rw [← hfile] at hreads'
  have hlines := hreads.unique (Nat.succ_pos _) hreads'
  exact seen_of_lines h h' ((List.append_left_injective [10]).list_map hlines)

/-- A client adds a car at this price and leaves. -/
def sampleCalls (preco : CFloat) : List Entry :=
  [sessionEntry 17 (cString (text "127.0.0.1")) 57202 (cString (text "CONNECT")),
    requestEntry 17 (cString (text "127.0.0.1")) 57202 (cString (text "REQUEST"))
      (rlistAddRequest ⟨2020, preco, 0, some (cString (text "m1")), 1⟩),
    sessionEntry 18 (cString (text "127.0.0.1")) 57202 (cString (text "CLOSE"))]

theorem log_reads_back_sampleCalls :
    logFile (sampleCalls 0) = logFile (sampleCalls 1) ∧
      (sampleCalls 0).map seen = (sampleCalls 1).map seen := by
  have hip : ∀ b ∈ (cString (text "127.0.0.1")).bytes, IsDigit b ∨ b = 46 := by decide +kernel
  have hplain : ∀ preco, ltZero preco = false → ∀ e ∈ sampleCalls preco, Plain e := by
    intro preco hpreco
    rw [sampleCalls, List.forall_mem_cons, List.forall_mem_cons, List.forall_mem_singleton]
    refine ⟨plain_sessionEntry hip (by decide +kernel), ?_,
      plain_sessionEntry hip (by decide +kernel)⟩
    have hreq : request (.add (some ⟨2020, preco, 0, some (cString (text "m1")), 1⟩)) =
        some (rlistAddRequest ⟨2020, preco, 0, some (cString (text "m1")), 1⟩) := rfl
    refine plain_requestEntry hip (by decide +kernel) hreq ?_
    rintro car ⟨⟩
    have hword : IsWord delim (cString (text "m1")).bytes := by decide +kernel
    exact ⟨⟨by simp, hpreco, by simp, by simp, _, rfl, by decide +kernel⟩, hword⟩
  have hfile : logFile (sampleCalls 0) = logFile (sampleCalls 1) := by decide +kernel
  exact ⟨hfile, log_reads_back (hplain 0 (by decide)) (hplain 1 (by decide)) hfile⟩

end CarChain.Log
