import CarChain.Skeleton

/-!
# Client stubs

The requests of `client_stub.c`.  A NULL model travels as the empty string,
which is how an absent string is unpacked.
-/

namespace CarChain.Stub
open CarChain.Record CarChain.Message CarChain.CarList CarChain.Skeleton

def rlistAddRequest (car : DataT) : MessageT :=
  { messageTInit with opcode := opAdd, cType := ctData, data := some (toData car) }

def rlistRemoveByModelRequest (modelo : CString) : MessageT :=
  { messageTInit with opcode := opDel, cType := ctModel, models := [modelo] }

def rlistGetByMarcaRequest (marca : Int) : MessageT :=
  { messageTInit with opcode := opGet, cType := ctMarca, result := marca }

def rlistGetByYearRequest (ano : Int) : MessageT :=
  { messageTInit with opcode := opGetListByTear, cType := ctResult, result := ano }

/-- The result field keeps its initial value. -/
def rlistOrderByYearRequest : MessageT :=
  { messageTInit with opcode := opGetListByTear, cType := ctResult }

def rlistSizeRequest : MessageT := { messageTInit with opcode := opSize, cType := ctNone }

def rlistGetModelListRequest : MessageT :=
  { messageTInit with opcode := opGetModels, cType := ctNone }

/-- The write requests the stubs build, the car valid or not. -/
inductive StubWrite : MessageT → Prop
  | add (car : DataT) : StubWrite (rlistAddRequest car)
  | remove (modelo : CString) : StubWrite (rlistRemoveByModelRequest modelo)

/-- The read requests the stubs build. -/
inductive StubRead : MessageT → Prop
  | getByMarca (marca : Int) : StubRead (rlistGetByMarcaRequest marca)
  | getByYear (ano : Int) : StubRead (rlistGetByYearRequest ano)
  | orderByYear : StubRead rlistOrderByYearRequest
  | size : StubRead rlistSizeRequest
  | getModelList : StubRead rlistGetModelListRequest

/-- A car every server accepts. -/
def sampleCar : DataT := ⟨2020, 0, 1, some (cString [109, 49]), 1⟩

/-- A listing of all cars, as the starting servers ask for it. -/
theorem invoke_getByYear_all (list : Cars) :
    invoke (rlistGetByYearRequest (-1)) list =
      ⟨0, replyListing (rlistGetByYearRequest (-1)) (listGetAll (listOrderByYear list)),
        listOrderByYear list⟩ := by
  simp [invoke, invokeGetListByTear, rlistGetByYearRequest]

/-! ## Telling the requests of the stubs -/

/-- The car whose request carries these fields. -/
def carOf (pd : Data) : DataT := ⟨pd.ano, pd.preco, pd.marca, some pd.modelo, pd.combustivel⟩

theorem toData_carOf (pd : Data) : toData (carOf pd) = pd := rfl

theorem stubWrite_iff (m : MessageT) :
    StubWrite m ↔ (∃ pd ∈ m.data, m = rlistAddRequest (carOf pd)) ∨
      ∃ model ∈ m.models, m = rlistRemoveByModelRequest model := by
  constructor
  · rintro (car | model)
    · exact Or.inl ⟨toData car, rfl, by simp [rlistAddRequest, toData_carOf]⟩
    · exact Or.inr ⟨model, List.mem_singleton_self model, rfl⟩
  · rintro (⟨pd, _, h⟩ | ⟨model, _, h⟩)
    · exact h ▸ StubWrite.add _
    · exact h ▸ StubWrite.remove _

theorem stubRead_iff (m : MessageT) :
    StubRead m ↔ m = rlistGetByMarcaRequest m.result ∨ m = rlistGetByYearRequest m.result ∨
      m = rlistOrderByYearRequest ∨ m = rlistSizeRequest ∨ m = rlistGetModelListRequest := by
  constructor
  · rintro (_ | _ | _ | _ | _) <;> simp [rlistGetByMarcaRequest, rlistGetByYearRequest]
  · rintro (h | h | h | h | h)
    · exact h ▸ StubRead.getByMarca _
    · exact h ▸ StubRead.getByYear _
    · exact h ▸ StubRead.orderByYear
    · exact h ▸ StubRead.size
    · exact h ▸ StubRead.getModelList

instance (m : MessageT) : Decidable (StubWrite m) := decidable_of_iff _ (stubWrite_iff m).symm

instance (m : MessageT) : Decidable (StubRead m) := decidable_of_iff _ (stubRead_iff m).symm

end CarChain.Stub
