import CarChain.Connect
import CarChain.Decoding
import CarChain.Lib.Decimal
import CarChain.Lib.Words

/-!
# The commands of the client

`processa_comando` of `list_client.c`.  A line makes the client print something,
or call one stub on one of its two connections and print what it returns
(`Reaction`); `strtok` takes the words off the line.  The functions of the C
library on floats are parameters.  An operation typed with its arguments, however
they are spaced and whatever follows them, is the call of its stub with these
arguments (`processaComando_typed`), and no line makes a client send a request
that its server would not accept (`processaComando_sends`).
-/

namespace CarChain.Commands
open CarChain.Record CarChain.Message CarChain.CarList CarChain.Skeleton CarChain.Stub
open CarChain.Handler CarChain.Remote CarChain.Connect CarChain.Words CarChain.Decimal
open CarChain.Decoding CarChain.Wire

/-! ## The C library -/

def text (s : String) : List UInt8 := s.toUTF8.data.toList

/-- `(float)atof(s)`, and what `%.2f` prints. -/
structure Floats where
  atof : List UInt8 → CFloat
  fixed2 : CFloat → List UInt8

/-- `" \t\r\n"`. -/
def delim (b : UInt8) : Bool := b = 32 || b = 9 || b = 13 || b = 10

/-- `strtok` on what it saved; NULL leaves nothing for the next call. -/
def strtok (save : List UInt8) : Option (List UInt8) × List UInt8 :=
  match nextWord delim save with
  | none => (none, [])
  | some (word, rest) => (some word, rest)

/-! ## Printing -/

def marcas : List String := ["Toyota", "Ford", "Mercedes", "BMW", "Audi"]

def combustiveis : List String := ["Gasolina", "Diesel", "Eletrico", "Hibrido"]

/-- A car that is not NULL. -/
def printCar (fl : Floats) (car : DataT) : List UInt8 :=
  text "Modelo: " ++ (match car.modelo with
    | some modelo => modelo.bytes
    | none => text "N/A") ++ text "\n" ++
  text "  Ano: " ++ signed car.ano ++ text "\n" ++
  text "  Preço: " ++ fl.fixed2 car.preco ++ text "\n" ++
  text "  Marca: " ++ text (if car.marca ≥ 0 ∧ car.marca ≤ 4 then
    marcas.getD car.marca.toNat "" else "Desconhecida") ++
  text " (" ++ signed car.marca ++ text ")\n" ++
  text "  Combustível: " ++ text (if car.combustivel ≥ 0 ∧ car.combustivel ≤ 3 then
    combustiveis.getD car.combustivel.toNat "" else "Desconhecido") ++
  text " (" ++ signed car.combustivel ++ text ")\n\n"

/-- The loops over an array print up to its first NULL. -/
def printAll {α : Type} (print : α → List UInt8) : List (Option α) → List UInt8
  | some a :: rest => print a ++ printAll print rest
  | _ => []

def ajuda : List UInt8 :=
  text "Comandos disponíveis: \n" ++
  text "  add <modelo> <ano> <preco> <marca:0-4> <combustivel:0-3>\n" ++
  text "  remove <modelo>\n" ++
  text "  get_by_marca <marca:0-4>\n" ++
  text "  get_by_year <ano>\n" ++
  text "  get_list_ordered_by_year\n" ++
  text "  size\n" ++
  text "  get_model_list\n" ++
  text "  help\n" ++
  text "  quit\n\n"

/-! ## Reactions -/

/-- The connection a command goes to. -/
inductive End
  | head
  | tail
  deriving DecidableEq

/-- What a line comes to: it prints, or calls a stub and prints what that
returns. -/
inductive Reaction
  | print (out : List UInt8)
  | ask (server : End) (op : Operation) (out : Returned → List UInt8)

def noHead : Reaction := .print (text "Error: No connection to Head server.\n")

def noTail : Reaction := .print (text "Error: No connection to Tail server.\n")

/-- The checks of `add`: the error that is printed, if one is. -/
def verificacoes (ano : Int) (preco : CFloat) (marca combustivel : Int) : Option (List UInt8) :=
  if ano < 1886 ∨ ano > 2100 then some (text "Erro: ano deve ser entre 1886 e 2100.\n")
  else if ltZero preco then some (text "Erro: preço deve ser um valor positivo.\n")
  else if marca < 0 ∨ marca > 4 then
    some (text "Erro: marca deve ser um valor entre 0 e 4.\n")
  else if combustivel < 0 ∨ combustivel > 3 then
    some (text "Erro: combustível deve ser um valor entre 0 e 3.\n")
  else none

def addOut : Returned → List UInt8
  | .int 0 => text "Carro adicionado com sucesso.\n"
  | _ => text "Erro: Não foi possivel adicionar o carro.\n"

def comandoAdd (fl : Floats) (headServer : Bool) (save : List UInt8) : Reaction :=
  if headServer = false then noHead
  else
    let (modelo, save) := strtok save
    let (anoStr, save) := strtok save
    let (precoStr, save) := strtok save
    let (marcaStr, save) := strtok save
    let (combustivelStr, _) := strtok save
    match modelo, anoStr, precoStr, marcaStr, combustivelStr with
    | some modelo, some anoStr, some precoStr, some marcaStr, some combustivelStr =>
      let ano := atoi anoStr
      let preco := fl.atof precoStr
      let marca := atoi marcaStr
      let combustivel := atoi combustivelStr
      match verificacoes ano preco marca combustivel with
      | some erro => .print erro
      | none =>
        let carro : DataT := ⟨ano, preco, marca, some (cString modelo), combustivel⟩
        .ask .head (.add (some carro)) addOut
    | _, _, _, _, _ =>
      .print (text "Erro: add <modelo> <ano> <preco> <marca:0-4> <combustivel:0-3>\n")

def removeOut (modelo : List UInt8) : Returned → List UInt8
  | .int 0 => text "Carro do modelo " ++ modelo ++ text " removido com sucesso.\n"
  | _ => text "Erro: modelo " ++ modelo ++ text " não encontrado ou erro ao remover.\n"

def comandoRemove (headServer : Bool) (save : List UInt8) : Reaction :=
  if headServer = false then noHead
  else
    match (strtok save).1 with
    | none => .print (text "Erro: remove <modelo>.\n")
    | some modelo => .ask .head (.removeByModel (some (cString modelo))) (removeOut modelo)

/-- The cars of a listing, or the error for a NULL array. -/
def carsOut (fl : Floats) (erro : List UInt8) : Returned → List UInt8
  | .cars (some carros) => printAll (printCar fl) carros
  | _ => erro

def comandoGetByYear (fl : Floats) (tailServer : Bool) (save : List UInt8) : Reaction :=
  if tailServer = false then noTail
  else
    match (strtok save).1 with
    | none => .print (text "Erro: get_by_year <ano>.\n")
    | some anoStr =>
      let ano := atoi anoStr
      .ask .tail (.getByYear ano) (carsOut fl
        (text "Erro: Nenhum carro encontrado para o ano " ++ signed ano ++ text ".\n"))

def carOut (fl : Floats) (marca : Int) : Returned → List UInt8
  | .car (some carro) => printCar fl carro
  | _ => text "Erro: Nenhum carro encontrado para a marca " ++ signed marca ++ text ".\n"

def comandoGetByMarca (fl : Floats) (tailServer : Bool) (save : List UInt8) : Reaction :=
  if tailServer = false then noTail
  else
    match (strtok save).1 with
    | none => .print (text "Erro: get_by_marca <marca>.\n")
    | some marcaStr => .ask .tail (.getByMarca (atoi marcaStr)) (carOut fl (atoi marcaStr))

/-- The ordered listing is the listing of year -1. -/
def comandoGetListOrderedByYear (fl : Floats) (tailServer : Bool) : Reaction :=
  if tailServer = false then noTail
  else .ask .tail (.getByYear (-1)) (carsOut fl (text "Erro: Nenhum carro encontrado.\n"))

def sizeOut : Returned → List UInt8
  | .int size =>
    if size = -1 then text "Erro ao obter tamanho da lista.\n"
    else text "Tamanho da lista: " ++ signed size ++ text "\n"
  | _ => text "Erro ao obter tamanho da lista.\n"

def comandoSize (tailServer : Bool) : Reaction :=
  if tailServer = false then noTail else .ask .tail .size sizeOut

def modelsOut : Returned → List UInt8
  | .models (some modelos) =>
    printAll (fun modelo => text "Modelo: " ++ modelo.bytes ++ text "\n") modelos
  | _ => text "Erro: Nenhum modelo encontrado.\n"

def comandoGetModelList (tailServer : Bool) : Reaction :=
  if tailServer = false then noTail else .ask .tail .getModelList modelsOut

/-- The two connections are given by whether they are not NULL. -/
def processaComando (fl : Floats) (headServer tailServer : Bool) (linha : CString) : Reaction :=
  match strtok linha.bytes with
  | (none, _) => .print []
  | (some comando, save) =>
    if comando = text "add" then comandoAdd fl headServer save
    else if comando = text "remove" then comandoRemove headServer save
    else if comando = text "get_by_year" then comandoGetByYear fl tailServer save
    else if comando = text "get_by_marca" then comandoGetByMarca fl tailServer save
    else if comando = text "get_list_ordered_by_year" then
      comandoGetListOrderedByYear fl tailServer
    else if comando = text "size" then comandoSize tailServer
    else if comando = text "get_model_list" then comandoGetModelList tailServer
    else if comando = text "help" then .print ajuda
    else .print (text "Comando inválido. Digite 'help' para ver os comandos disponíveis.\n")

/-! ## Words and numerals -/

/-- `strtok` takes the words off a line one after the other. -/
theorem strtok_spaced {words : List (List UInt8)} {save : List UInt8}
    (h : Spaced delim words save) :
    ∃ rest, strtok save = (words.head?, rest) ∧ Spaced delim words.tail rest := by
  cases words with
  | nil =>
    refine ⟨[], ?_, .gap fun b hb => by cases hb⟩
    rw [strtok, nextWord_nil h]
    rfl
  | cons word words =>
    obtain ⟨rest, hnext, hrest⟩ := nextWord_cons h
    refine ⟨rest, ?_, hrest⟩
    rw [strtok, hnext]
    rfl

theorem strtolDigits_eq_value {digits : List UInt8} (h : ∀ b ∈ digits, IsDigit b) (n : Nat) :
    strtolDigits n digits = value n digits := by
  induction digits generalizing n with
  | nil => rfl
  | cons b digits ih =>
    rw [List.forall_mem_cons] at h
    have hdigit : 48 ≤ b ∧ b ≤ 57 := h.1
    have hb : 48 ≤ b.toNat := UInt8.le_iff_toNat_le.mp hdigit.1
    have hnext : (n : Int) * 10 + (b.toNat - 48) = ((n * 10 + (b.toNat - 48) : Nat) : Int) := by
      omega
    rw [strtolDigits, if_pos hdigit, hnext, ih h.2]
    rfl

theorem strtolDigits_decimal (n : Nat) : strtolDigits 0 (decimal n) = n := by
  have hvalue := @strtolDigits_eq_value (decimal n) (fun b hb => isDigit_decimal hb) 0
  rwa [value_decimal] at hvalue

theorem strtol_decimal (n : Nat) : strtol (decimal n) = n := by
  obtain ⟨b, rest, hd⟩ := List.exists_cons_of_ne_nil (decimal_ne_nil n)
  have hdigit : IsDigit b := isDigit_decimal (hd ▸ List.mem_cons_self)
  have hspace : ¬isspace b = true := by
    have hle : 48 ≤ b.toNat := UInt8.le_iff_toNat_le.mp hdigit.1
    simp only [isspace, Bool.or_eq_true, Bool.and_eq_true, decide_eq_true_eq,
      UInt8.le_iff_toNat_le, ← UInt8.toNat_inj]
    simp only [UInt8.reduceToNat]
    omega
  have hminus : b ≠ 45 := by
    rintro rfl
    revert hdigit
    decide
  have hplus : b ≠ 43 := by
    rintro rfl
    revert hdigit
    decide
  unfold strtol
  rw [hd, List.dropWhile_cons_of_neg hspace, ← hd, ← strtolDigits_decimal n]
  split
  · rename_i heq
    rw [hd] at heq
    exact absurd (List.cons.inj heq).1 hminus
  · rename_i heq
    rw [hd] at heq
    exact absurd (List.cons.inj heq).1 hplus
  · rfl

theorem strtol_signed (x : Int) : strtol (signed x) = x := by
  unfold signed
  split
  · rename_i hneg
    show -strtolDigits 0 (decimal x.natAbs) = x
    rw [strtolDigits_decimal]
    omega
  · rename_i hpos
    rw [strtol_decimal]
    omega

theorem int32_atoi (s : List UInt8) : Int32 (atoi s) := by
  unfold atoi
  have hle := Int.le_bmod (x := max (-9223372036854775808) (min 9223372036854775807 (strtol s)))
    (m := 4294967296) (by decide)
  have hlt := Int.bmod_lt (x := max (-9223372036854775808) (min 9223372036854775807 (strtol s)))
    (m := 4294967296) (by decide)
  constructor <;> omega

/-- The numeral of an `int` reads back. -/
theorem atoi_signed {x : Int} (h : Int32 x) : atoi (signed x) = x := by
  obtain ⟨hle, hlt⟩ := h
  unfold atoi
  rw [strtol_signed, max_eq_right (by omega), min_eq_right (by omega)]
  exact Int.bmod_eq_of_le (by omega) (by omega)

/-! ## Typed operations -/

/-- The commands with their arguments; a price is the text that is typed. -/
inductive Comando
  | add (modelo : List UInt8) (ano : Int) (preco : List UInt8) (marca combustivel : Int)
  | remove (modelo : List UInt8)
  | getByYear (ano : Int)
  | getByMarca (marca : Int)
  | getListOrderedByYear
  | size
  | getModelList
  | help

/-- What is typed for a command. -/
def Comando.words : Comando → List (List UInt8)
  | .add modelo ano preco marca combustivel =>
    [text "add", modelo, signed ano, preco, signed marca, signed combustivel]
  | .remove modelo => [text "remove", modelo]
  | .getByYear ano => [text "get_by_year", signed ano]
  | .getByMarca marca => [text "get_by_marca", signed marca]
  | .getListOrderedByYear => [text "get_list_ordered_by_year"]
  | .size => [text "size"]
  | .getModelList => [text "get_model_list"]
  | .help => [text "help"]

/-- The numbers are those of an `int`. -/
def Comando.Fits : Comando → Prop
  | .add _ ano _ marca combustivel => Int32 ano ∧ Int32 marca ∧ Int32 combustivel
  | .getByYear ano => Int32 ano
  | .getByMarca marca => Int32 marca
  | _ => True

instance : (c : Comando) → Decidable c.Fits
  | .add _ ano _ marca combustivel =>
    inferInstanceAs (Decidable (Int32 ano ∧ Int32 marca ∧ Int32 combustivel))
  | .getByYear ano => inferInstanceAs (Decidable (Int32 ano))
  | .getByMarca marca => inferInstanceAs (Decidable (Int32 marca))
  | .remove _ | .getListOrderedByYear | .size | .getModelList | .help => isTrue trivial

/-- The car a typed `add` describes. -/
def typedCar (fl : Floats) (modelo : List UInt8) (ano : Int) (preco : List UInt8)
    (marca combustivel : Int) : DataT :=
  ⟨ano, fl.atof preco, marca, some (cString modelo), combustivel⟩

/-- What a command asks for, with what it prints for an answer. -/
def Comando.reaction (fl : Floats) : Comando → Reaction
  | .add modelo ano preco marca combustivel =>
    match verificacoes ano (fl.atof preco) marca combustivel with
    | some erro => .print erro
    | none => .ask .head (.add (some (typedCar fl modelo ano preco marca combustivel))) addOut
  | .remove modelo => .ask .head (.removeByModel (some (cString modelo))) (removeOut modelo)
  | .getByYear ano =>
    .ask .tail (.getByYear ano) (carsOut fl
      (text "Erro: Nenhum carro encontrado para o ano " ++ signed ano ++ text ".\n"))
  | .getByMarca marca => .ask .tail (.getByMarca marca) (carOut fl marca)
  | .getListOrderedByYear =>
    .ask .tail (.getByYear (-1)) (carsOut fl (text "Erro: Nenhum carro encontrado.\n"))
  | .size => .ask .tail .size sizeOut
  | .getModelList => .ask .tail .getModelList modelsOut
  | .help => .print ajuda

/-- What an `add` followed by these words comes to. -/
def addWords (fl : Floats) : List (List UInt8) → Reaction
  | modelo :: anoStr :: precoStr :: marcaStr :: combustivelStr :: _ =>
    match verificacoes (atoi anoStr) (fl.atof precoStr) (atoi marcaStr)
      (atoi combustivelStr) with
    | some erro => .print erro
    | none => .ask .head (.add (some (typedCar fl modelo (atoi anoStr) precoStr
        (atoi marcaStr) (atoi combustivelStr)))) addOut
  | _ => .print (text "Erro: add <modelo> <ano> <preco> <marca:0-4> <combustivel:0-3>\n")

theorem comandoAdd_spaced (fl : Floats) {words : List (List UInt8)} {save : List UInt8}
    (h : Spaced delim words save) : comandoAdd fl true save = addWords fl words := by
  obtain ⟨save₁, hmodelo, h₁⟩ := strtok_spaced h
  obtain ⟨save₂, hano, h₂⟩ := strtok_spaced h₁
  obtain ⟨save₃, hpreco, h₃⟩ := strtok_spaced h₂
  obtain ⟨save₄, hmarca, h₄⟩ := strtok_spaced h₃
  obtain ⟨save₅, hcombustivel, _⟩ := strtok_spaced h₄
  unfold comandoAdd
  rw [if_neg (by decide), hmodelo]
  dsimp only
  rw [hano]
  dsimp only
  rw [hpreco]
  dsimp only
  rw [hmarca]
  dsimp only
  rw [hcombustivel]
  rcases words with _ | ⟨_, _ | ⟨_, _ | ⟨_, _ | ⟨_, _ | ⟨_, _⟩⟩⟩⟩⟩ <;> rfl

/-- **A typed operation is the call of its stub**, whatever the spacing and
whatever follows the words it needs. -/
theorem processaComando_typed (fl : Floats) {c : Comando} (hc : c.Fits)
    {extra : List (List UInt8)} {linha : CString}
    (h : Spaced delim (c.words ++ extra) linha.bytes) :
    processaComando fl true true linha = c.reaction fl := by
  obtain ⟨save, hcomando, hsave⟩ := strtok_spaced h
  unfold processaComando
  rw [hcomando]
  cases c with
  | add modelo ano preco marca combustivel =>
    obtain ⟨hano, hmarca, hcombustivel⟩ := hc
    dsimp only [Comando.words, List.head?_cons, List.cons_append]
    rw [if_pos rfl, comandoAdd_spaced fl hsave]
    dsimp only [Comando.words, List.cons_append, List.tail_cons, addWords]
    rw [atoi_signed hano, atoi_signed hmarca, atoi_signed hcombustivel]
    rfl
  | remove modelo =>
    obtain ⟨rest, hmodelo, _⟩ := strtok_spaced hsave
    dsimp only [Comando.words, List.head?_cons, List.cons_append]
    rw [if_neg (by decide +kernel), if_pos rfl, comandoRemove, if_neg (by decide), hmodelo]
    rfl
  | getByYear ano =>
    obtain ⟨rest, hano, _⟩ := strtok_spaced hsave
    dsimp only [Comando.words, List.head?_cons, List.cons_append]
    rw [if_neg (by decide +kernel), if_neg (by decide +kernel), if_pos rfl, comandoGetByYear,
      if_neg (by decide), hano]
    dsimp only [Comando.words, List.head?_cons, List.cons_append, List.tail_cons]
    rw [atoi_signed hc]
    rfl
  | getByMarca marca =>
    obtain ⟨rest, hmarca, _⟩ := strtok_spaced hsave
    dsimp only [Comando.words, List.head?_cons, List.cons_append]
    rw [if_neg (by decide +kernel), if_neg (by decide +kernel), if_neg (by decide +kernel),
      if_pos rfl, comandoGetByMarca, if_neg (by decide), hmarca]
    dsimp only [Comando.words, List.head?_cons, List.cons_append, List.tail_cons]
    rw [atoi_signed hc]
    rfl
  | getListOrderedByYear =>
    dsimp only [Comando.words, List.head?_cons, List.cons_append]
    rw [if_neg (by decide +kernel), if_neg (by decide +kernel), if_neg (by decide +kernel),
      if_neg (by decide +kernel), if_pos rfl]
    rfl
  | size =>
    dsimp only [Comando.words, List.head?_cons, List.cons_append]
    rw [if_neg (by decide +kernel), if_neg (by decide +kernel), if_neg (by decide +kernel),
      if_neg (by decide +kernel), if_neg (by decide +kernel), if_pos rfl]
    rfl
  | getModelList =>
    dsimp only [Comando.words, List.head?_cons, List.cons_append]
    rw [if_neg (by decide +kernel), if_neg (by decide +kernel), if_neg (by decide +kernel),
      if_neg (by decide +kernel), if_neg (by decide +kernel), if_neg (by decide +kernel),
      if_pos rfl]
    rfl
  | help =>
    dsimp only [Comando.words, List.head?_cons, List.cons_append]
    rw [if_neg (by decide +kernel), if_neg (by decide +kernel), if_neg (by decide +kernel),
      if_neg (by decide +kernel), if_neg (by decide +kernel), if_neg (by decide +kernel),
      if_neg (by decide +kernel), if_pos rfl]
    rfl

/-- Every price is 10. -/
def sampleFloats : Floats := ⟨fun _ => 0x41200000, fun _ => text "10.00"⟩

/-! ## What a client sends -/

/-- The calls a line of so many bytes can make, on the connection they go to: the
car of an `add` passes the check of every server. -/
inductive Asks (len : Nat) : End → Operation → Prop
  | add {car : DataT} : car.Valid → strlen (modeloText car) ≤ len →
      Asks len .head (.add (some car))
  | removeByModel {modelo : CString} : strlen modelo ≤ len →
      Asks len .head (.removeByModel (some modelo))
  | getByYear {ano : Int} : Int32 ano → Asks len .tail (.getByYear ano)
  | getByMarca {marca : Int} : Int32 marca → Asks len .tail (.getByMarca marca)
  | size : Asks len .tail .size
  | getModelList : Asks len .tail .getModelList

/-- The checks of the client are those of `validate_params`. -/
theorem verificacoes_eq_none {ano marca combustivel : Int} {preco : CFloat} {modelo : CString}
    (hm : strlen modelo ≠ 0) :
    verificacoes ano preco marca combustivel = none ↔
      DataT.Valid ⟨ano, preco, marca, some modelo, combustivel⟩ := by
  unfold verificacoes
  constructor
  · intro h
    split at h
    · cases h
    · split at h
      · cases h
      · split at h
        · cases h
        · split at h
          · cases h
          · rename_i hano hpreco hmarca hcombustivel
            refine ⟨?_, by simpa using hpreco, ?_, ?_, modelo, rfl, hm⟩
            all_goals
              dsimp only
              omega
  · rintro ⟨hano, hpreco, hmarca, hcombustivel, _⟩
    dsimp only at hano hpreco hmarca hcombustivel
    rw [if_neg (by omega), hpreco, if_neg (by simp), if_neg (by omega), if_neg (by omega)]

/-- A word of a line as the string the stubs are given. -/
theorem cString_word {linha : CString} {words : List (List UInt8)}
    (h : Spaced delim words linha.bytes) {word : List UInt8} (hw : word ∈ words) :
    strlen (cString word) ≠ 0 ∧ strlen (cString word) ≤ strlen linha := by
  obtain ⟨hword, hin⟩ := h.word_mem hw
  have hnul : 0 ∉ word := fun hb => linha.noNul (hin.subset hb)
  have hbytes : (cString word).bytes = word := congrArg CString.bytes (cString_bytes ⟨word, hnul⟩)
  unfold strlen
  rw [hbytes]
  exact ⟨mt List.eq_nil_of_length_eq_zero hword.ne_nil, hin.length_le⟩

/-- The words a command is given, as strings. -/
def Short (len : Nat) (words : List (List UInt8)) : Prop :=
  ∀ word ∈ words, strlen (cString word) ≠ 0 ∧ strlen (cString word) ≤ len

theorem comandoAdd_sends {fl : Floats} {up : Bool} {len : Nat} {words : List (List UInt8)}
    {save : List UInt8} (hwords : Spaced delim words save) (hshort : Short len words)
    {server : End} {op : Operation} {out : Returned → List UInt8}
    (h : comandoAdd fl up save = .ask server op out) : Asks len server op := by
  cases up with
  | false => cases h
  | true =>
    rw [comandoAdd_spaced fl hwords] at h
    unfold addWords at h
    split at h
    · rename_i modelo anoStr precoStr marcaStr combustivelStr extra
      obtain ⟨hne, hle⟩ := hshort modelo List.mem_cons_self
      split at h
      · cases h
      · rename_i hchecks
        cases h
        exact .add ((verificacoes_eq_none hne).mp hchecks) hle
    · cases h

theorem comandoRemove_sends {up : Bool} {len : Nat} {words : List (List UInt8)}
    {save : List UInt8} (hwords : Spaced delim words save) (hshort : Short len words)
    {server : End} {op : Operation} {out : Returned → List UInt8}
    (h : comandoRemove up save = .ask server op out) : Asks len server op := by
  cases up with
  | false => cases h
  | true =>
    obtain ⟨_, hmodelo, _⟩ := strtok_spaced hwords
    rw [comandoRemove, if_neg (by decide), hmodelo] at h
    cases words with
    | nil => cases h
    | cons modelo words =>
      cases h
      exact .removeByModel (hshort modelo List.mem_cons_self).2

theorem comandoGetByYear_sends {fl : Floats} {up : Bool} (len : Nat) {save : List UInt8}
    {server : End} {op : Operation} {out : Returned → List UInt8}
    (h : comandoGetByYear fl up save = .ask server op out) : Asks len server op := by
  unfold comandoGetByYear at h
  split at h
  · cases h
  · split at h
    · cases h
    · cases h
      exact .getByYear (int32_atoi _)

theorem comandoGetByMarca_sends {fl : Floats} {up : Bool} (len : Nat) {save : List UInt8}
    {server : End} {op : Operation} {out : Returned → List UInt8}
    (h : comandoGetByMarca fl up save = .ask server op out) : Asks len server op := by
  unfold comandoGetByMarca at h
  split at h
  · cases h
  · split at h
    · cases h
    · cases h
      exact .getByMarca (int32_atoi _)

/-- **No line makes a client send what its server would refuse.** -/
theorem processaComando_sends {fl : Floats} {headServer tailServer : Bool} {linha : CString}
    {server : End} {op : Operation} {out : Returned → List UInt8}
    (h : processaComando fl headServer tailServer linha = .ask server op out) :
    Asks (strlen linha) server op := by
  obtain ⟨words, hwords⟩ := @exists_spaced _ delim linha.bytes
  obtain ⟨save, hcomando, hsave⟩ := strtok_spaced hwords
  have hshort : Short (strlen linha) words.tail := fun word hw =>
    cString_word hwords (List.mem_of_mem_tail hw)
  unfold processaComando at h
  rw [hcomando] at h
  cases words with
  | nil => cases h
  | cons comando args =>
    dsimp only [List.head?_cons] at h
    split at h
    · exact comandoAdd_sends hsave hshort h
    · split at h
      · exact comandoRemove_sends hsave hshort h
      · split at h
        · exact comandoGetByYear_sends _ h
        · split at h
          · exact comandoGetByMarca_sends _ h
          · split at h
            · cases tailServer with
              | false => cases h
              | true =>
                cases h
                exact .getByYear (by decide)
            · split at h
              · cases tailServer with
                | false => cases h
                | true =>
                  cases h
                  exact .size
              · split at h
                · cases tailServer with
                  | false => cases h
                  | true =>
                    cases h
                    exact .getModelList
                · split at h <;> cases h

theorem Asks.mono {len len' : Nat} (hle : len ≤ len') {server : End} {op : Operation}
    (h : Asks len server op) : Asks len' server op := by
  cases h with
  | add hv hm => exact .add hv (Nat.le_trans hm hle)
  | removeByModel hm => exact .removeByModel (Nat.le_trans hm hle)
  | getByYear hano => exact .getByYear hano
  | getByMarca hmarca => exact .getByMarca hmarca
  | size => exact .size
  | getModelList => exact .getModelList

/-! ## The requests of a client -/

theorem int32Field_le {x : Int} (h : Int32 x) : int32Field x ≤ 11 := by
  obtain ⟨_, hlt⟩ := h
  unfold int32Field int32Size
  split
  · omega
  · split
    · omega
    · have hsize := @varintSize_le x.toNat (by omega)
      omega

theorem sint32Field_le {x : Int} (h : Int32 x) : sint32Field x ≤ 11 := by
  obtain ⟨hle, hlt⟩ := h
  unfold sint32Field sint32Size
  split
  · omega
  · have hsize := @varintSize_le (if x < 0 then (-x).toNat * 2 - 1 else x.toNat * 2)
      (by split <;> omega)
    omega

theorem delimited_le {n : Nat} (h : n ≤ uint16Max) : delimited n ≤ n + 11 := by
  simp only [uint16Max] at h
  have hsize := @varintSize_le n (by omega)
  unfold delimited
  omega

theorem dataPackedSize_le {car : DataT} (hv : car.Valid)
    (hm : strlen (modeloText car) ≤ 1023) : dataPackedSize (toData car) ≤ 1072 := by
  obtain ⟨hano, hano'⟩ := hv.ano
  obtain ⟨hmarca, hmarca'⟩ := hv.marca
  obtain ⟨hcombustivel, hcombustivel'⟩ := hv.combustivel
  have h₁ : int32Field car.ano ≤ 11 := int32Field_le ⟨by omega, by omega⟩
  have h₂ : int32Field car.marca ≤ 11 := int32Field_le ⟨by omega, by omega⟩
  have h₃ : int32Field car.combustivel ≤ 11 := int32Field_le ⟨by omega, by omega⟩
  have h₄ : floatField car.preco ≤ 5 := by
    unfold floatField
    split <;> omega
  have h₅ : stringField (modeloText car) ≤ 1034 := by
    unfold stringField
    split
    · omega
    · have hd := @delimited_le (strlen (modeloText car)) (by simp only [uint16Max]; omega)
      omega
  show int32Field car.ano + floatField car.preco + int32Field car.marca +
    stringField (modeloText car) + int32Field car.combustivel ≤ 1072
  omega

/-- The requests of typed commands fit a frame with room to spare. -/
theorem Asks.request_size {server : End} {op : Operation} (h : Asks 1023 server op) :
    ∀ req ∈ request op, messageTGetPackedSize req ≤ 1200 := by
  have hinit : int32Field 0 = 0 ∧ sint32Field 0 = 0 := by decide
  have hop : ∀ x : Int, Wire.Small x → int32Field x = 2 := fun _ => int32Field_small
  intro req hreq
  cases h with
  | @add car hv hm =>
    cases hreq
    have hd := dataPackedSize_le hv hm
    have hdel := @delimited_le (dataPackedSize (toData car)) (by simp only [uint16Max]; omega)
    simp only [rlistAddRequest, messageTInit, messageTGetPackedSize, payloadSize, repeatedField,
      hinit.2, hop opAdd (by decide)]
    omega
  | @removeByModel modelo hm =>
    cases hreq
    have hdel := @delimited_le (strlen modelo) (by simp only [uint16Max]; omega)
    simp only [rlistRemoveByModelRequest, messageTInit, messageTGetPackedSize, payloadSize,
      repeatedField, hinit.2, hop opDel (by decide), hop ctModel (by decide)]
    omega
  | @getByYear ano hano =>
    cases hreq
    have hs := sint32Field_le hano
    simp only [rlistGetByYearRequest, messageTInit, messageTGetPackedSize, payloadSize,
      repeatedField, hop opGetListByTear (by decide), hop ctResult (by decide)]
    omega
  | @getByMarca marca hmarca =>
    cases hreq
    have hs := sint32Field_le hmarca
    simp only [rlistGetByMarcaRequest, messageTInit, messageTGetPackedSize, payloadSize,
      repeatedField, hop opGet (by decide)]
    omega
  | size =>
    cases hreq
    decide
  | getModelList =>
    cases hreq
    decide

/-- A call that reaches the right server with a request it accepts. -/
structure Accepted (server : End) (op : Operation) : Prop where
  sends : (request op).isSome = true
  routed : ∀ req ∈ request op, isWriteOp req = true ↔ server = .head
  fits : ∀ req ∈ request op, messageTGetPackedSize req ≤ uint16Max
  served : ∀ req ∈ request op, server = .head → ∀ list, (invoke req list).msg.opcode ≠ opError

theorem invoke_add_valid {car : DataT} (hv : car.Valid) (list : Cars) :
    invoke (rlistAddRequest car) list =
      ⟨0, { rlistAddRequest car with opcode := opAdd + 1, cType := ctNone }, listAdd list car⟩ := by
  have hcreate := createFrom_toData hv
  simp [invoke, invokeAdd, rlistAddRequest, hcreate]

theorem Asks.accepted {server : End} {op : Operation} (h : Asks 1023 server op) :
    Accepted server op := by
  have hsize := h.request_size
  refine ⟨?_, ?_, fun req hreq => Nat.le_trans (hsize req hreq) (by decide), ?_⟩
  · cases h <;> rfl
  · intro req hreq
    cases h <;> cases hreq <;>
      simp [isWriteOp, rlistAddRequest, rlistRemoveByModelRequest, rlistGetByYearRequest,
        rlistGetByMarcaRequest, rlistSizeRequest, rlistGetModelListRequest]
  · intro req hreq hhead list
    cases h with
    | add hv _ =>
      cases hreq
      simp [invoke_add_valid hv]
    | removeByModel _ =>
      cases hreq
      simp [invoke, invokeDel, rlistRemoveByModelRequest]
    | getByYear _ => cases hhead
    | getByMarca _ => cases hhead
    | size => cases hhead
    | getModelList => cases hhead

end CarChain.Commands
