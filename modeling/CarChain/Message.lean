import CarChain.Record

/-!
# Protocol messages

`sdmessage.proto` and the structures generated from it.  Enumeration fields are
open in proto3, so a message carries integers; `OP_ADD + 1` and its siblings
are no members of the enumeration.  A message that was unpacked has a models
(cars) array exactly when it has a model (car), and its strings are never NULL.
-/

namespace CarChain.Message
open CarChain.Record

@[reducible, simp] def opBad : Int := 0
@[reducible, simp] def opAdd : Int := 10
@[reducible, simp] def opGet : Int := 20
@[reducible, simp] def opDel : Int := 30
@[reducible, simp] def opSize : Int := 40
@[reducible, simp] def opGetModels : Int := 50
@[reducible, simp] def opGetListByTear : Int := 60
@[reducible, simp] def opError : Int := 99
@[reducible, simp] def opBusy : Int := 100
@[reducible, simp] def opReady : Int := 101

@[reducible, simp] def ctBad : Int := 0
@[reducible, simp] def ctData : Int := 10
@[reducible, simp] def ctMarca : Int := 20
@[reducible, simp] def ctModel : Int := 40
@[reducible, simp] def ctResult : Int := 50
@[reducible, simp] def ctList : Int := 60
@[reducible, simp] def ctNone : Int := 70

/-- A car on the wire. -/
structure Data where
  ano : Int
  preco : CFloat
  marca : Int
  modelo : CString
  combustivel : Int
  deriving DecidableEq

structure MessageT where
  opcode : Int
  cType : Int
  data : Option Data
  result : Int
  models : List CString
  cars : List Data
  deriving DecidableEq

/-- `message_t__init`. -/
def messageTInit : MessageT := ⟨opBad, ctBad, none, 0, [], []⟩

/-- The text of a model; no record of the list has a NULL one
(`CarChain.Record.dataCreate_valid`). -/
def modeloText (d : DataT) : CString := d.modelo.getD CString.empty

/-- The wire form `invoke` gives a record of the list. -/
def toData (d : DataT) : Data := ⟨d.ano, d.preco, d.marca, modeloText d, d.combustivel⟩

/-- `data_create` on the fields of a received car. -/
def createFrom (pd : Data) : Option DataT :=
  dataCreate pd.ano pd.preco pd.marca (some pd.modelo) pd.combustivel

/-- A valid record survives the trip over the wire. -/
theorem createFrom_toData {d : DataT} (h : d.Valid) : createFrom (toData d) = some d := by
  obtain ⟨s, hs, _⟩ := h.modelo
  have hm : some (modeloText d) = d.modelo := by rw [modeloText, hs]; rfl
  rw [createFrom, toData, hm]
  exact dataDup_of_valid h

theorem createFrom_valid {pd : Data} {d : DataT} (h : createFrom pd = some d) : d.Valid :=
  dataCreate_valid h

theorem createFrom_modelo {pd : Data} {d : DataT} (h : createFrom pd = some d) :
    d.modelo = some pd.modelo := by
  rw [((dataCreate_eq_some _ _ _ _ _ d).mp h).1]

end CarChain.Message
