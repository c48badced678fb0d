import CarChain.Failover
import CarChain.Linearizable
import CarChain.Remote

/-!
# What clients see of each other

What a client can tell from the replies it got, in a chain without failures
whose reads go to the last server and never ask for all cars in order: once a car
was reported, by an add that succeeded, a get or a listing of a year, the reads
sent afterwards that concern it show that it is there (`Shows`), until a removal
of its model takes effect (`reported_until_removed`).
-/

namespace CarChain.Chain
open CarChain.Record CarChain.Message CarChain.CarList CarChain.Skeleton CarChain.Lists
open CarChain.Stub CarChain.Handler CarChain.Run CarChain.Wire

/-! ## Reports -/

/-- The client is told that the car is there: its add succeeds, or the stub
makes the car of what it gets. -/
inductive Reports (msg reply : MessageT) (d : DataT) : Prop
  | added (car : DataT) : msg = rlistAddRequest car → reply.opcode = opAdd + 1 →
      dataDup car = some d → Reports msg reply d
  | found (marca : Int) (pd : Data) : msg = rlistGetByMarcaRequest marca →
      reply.opcode = opGet + 1 → reply.data = some pd → createFrom pd = some d →
      Reports msg reply d
  | listed (ano : Int) (pd : Data) : msg = rlistGetByYearRequest ano → pd ∈ reply.cars →
      createFrom pd = some d → Reports msg reply d

/-- What a read that concerns a car says if it is there: the listing of its year
holds it, the list of models its model, a get of its brand gives a car of that
brand, if not this one, and the size is positive.  Other reads need not say
anything of it. -/
structure Shows (d : DataT) (msg reply : MessageT) : Prop where
  byMarca : msg = rlistGetByMarcaRequest d.marca → reply.opcode = opGet + 1 ∧
    ∃ other, other.marca = d.marca ∧ reply.data = some (toData other)
  byYear : msg = rlistGetByYearRequest d.ano → toData d ∈ reply.cars
  models : msg = rlistGetModelListRequest → modeloText d ∈ reply.models
  size : msg = rlistSizeRequest → 0 < reply.result

theorem shows_byMarca {list : Cars} {d : DataT} (hd : d ∈ list.head) :
    (invoke (rlistGetByMarcaRequest d.marca) list).msg.opcode = opGet + 1 ∧
      ∃ other, other.marca = d.marca ∧
        (invoke (rlistGetByMarcaRequest d.marca) list).msg.data = some (toData other) := by
  have hget : invoke (rlistGetByMarcaRequest d.marca) list =
      invokeGet (rlistGetByMarcaRequest d.marca) list := rfl
  have htype : ¬(rlistGetByMarcaRequest d.marca).cType ≠ ctMarca := not_not.mpr rfl
  rw [hget, invokeGet, if_neg htype]
  have hres : (rlistGetByMarcaRequest d.marca).result = d.marca := rfl
  rw [hres]
  cases hf : listGetByMarca list d.marca with
  | none => simpa using List.find?_eq_none.mp hf d hd
  | some found => exact ⟨rfl, found, by simpa using List.find?_some hf, rfl⟩

theorem shows_byYear {list : Cars} {d : DataT} (hv : d.Valid) (hd : d ∈ list.head) :
    toData d ∈ (invoke (rlistGetByYearRequest d.ano) list).msg.cars := by
  have hget : invoke (rlistGetByYearRequest d.ano) list =
      invokeGetListByTear (rlistGetByYearRequest d.ano) list := rfl
  have hres : (rlistGetByYearRequest d.ano).result = d.ano := rfl
  have htype : ¬(rlistGetByYearRequest d.ano).cType ≠ ctResult := not_not.mpr rfl
  have hyear : d.ano ≠ -1 := by
    have := hv.ano
    omega
  have hmem : d ∈ list.head.filter (fun c => c.ano = d.ano) := by simpa using hd
  rw [hget, invokeGetListByTear, if_neg htype, hres, if_neg hyear]
  cases hl : listGetByYear list d.ano with
  | none =>
    have hnil : list.head.filter (fun c => c.ano = d.ano) = [] := by
      simpa [listGetByYear, getByYear] using hl
    rw [hnil] at hmem
    cases hmem
  | some cars =>
    obtain ⟨_, rfl⟩ := listGetByYear_eq_some.mp hl
    exact List.mem_map_of_mem hmem

/-- A list that holds the car shows it. -/
theorem shows_of_mem {list : Cars} (hw : WellFormed list) {d : DataT} (hd : d ∈ list.head)
    (msg : MessageT) : Shows d msg (invoke msg list).msg := by
  constructor
  · rintro rfl
    exact shows_byMarca hd
  · rintro rfl
    exact shows_byYear (hw.valid d hd) hd
  · rintro rfl
    have hget : invoke rlistGetModelListRequest list =
        invokeGetModels rlistGetModelListRequest list := rfl
    have htype : ¬rlistGetModelListRequest.cType ≠ ctNone := not_not.mpr rfl
    have hsize : list.size ≠ 0 := mt hw.size_eq_zero.mp (List.ne_nil_of_mem hd)
    rw [hget, invokeGetModels, if_neg htype, listGetModelList, if_neg hsize]
    exact List.mem_map_of_mem hd
  · rintro rfl
    have hlen := List.length_pos_of_mem hd
    show (0 : Int) < list.size
    rw [hw.size]
    omega

/-- The cars of a listing are in the list. -/
theorem mem_of_listed {list : Cars} {ano : Int} {pd : Data}
    (h : pd ∈ (invoke (rlistGetByYearRequest ano) list).msg.cars) :
    ∃ d ∈ list.head, pd = toData d := by
  have hget : invoke (rlistGetByYearRequest ano) list =
      invokeGetListByTear (rlistGetByYearRequest ano) list := rfl
  have htype : ¬(rlistGetByYearRequest ano).cType ≠ ctResult := not_not.mpr rfl
  have hlisting : ∀ arr : Option (List DataT),
      (∀ cars, arr = some cars → ∀ d ∈ cars, d ∈ list.head) →
      pd ∈ (replyListing (rlistGetByYearRequest ano) arr).cars →
      ∃ d ∈ list.head, pd = toData d := by
    intro arr harr hpd
    cases arr with
    | none => cases hpd
    | some cars =>
      obtain ⟨d, hd, rfl⟩ := List.mem_map.mp hpd
      exact ⟨d, harr cars rfl d hd, rfl⟩
  rw [hget, invokeGetListByTear, if_neg htype] at h
  split at h
  · refine hlisting _ ?_ h
    intro cars hcars d hd
    unfold listGetAll at hcars
    split at hcars
    · cases hcars
    · cases hcars
      exact (listOrderByYear_perm list).mem_iff.mp hd
  · refine hlisting _ ?_ h
    intro cars hcars d hd
    obtain ⟨_, rfl⟩ := listGetByYear_eq_some.mp hcars
    exact List.mem_of_mem_filter hd

/-- A read reports nothing but cars of the list. -/
theorem mem_of_read {msg : MessageT} (hr : isWriteOp msg = false) {list : Cars}
    (hv : ∀ d ∈ list.head, d.Valid) {d : DataT} (h : Reports msg (invoke msg list).msg d) :
    d ∈ list.head := by
  cases h with
  | added car hmsg _ _ =>
    rw [hmsg, isWriteOp_of_stubWrite (.add car)] at hr
    cases hr
  | found marca pd hmsg hop hdata hcar =>
    subst hmsg
    have hget : invoke (rlistGetByMarcaRequest marca) list =
        invokeGet (rlistGetByMarcaRequest marca) list := rfl
    have htype : ¬(rlistGetByMarcaRequest marca).cType ≠ ctMarca := not_not.mpr rfl
    rw [hget, invokeGet, if_neg htype] at hop hdata
    cases hf : listGetByMarca list (rlistGetByMarcaRequest marca).result with
    | none =>
      rw [hf] at hop
      exact absurd hop (by simp)
    | some found =>
      rw [hf] at hdata
      have hmem : found ∈ list.head := List.mem_of_find?_eq_some hf
      have hpd : toData found = pd := Option.some.inj hdata
      rw [← hpd, createFrom_toData (hv found hmem)] at hcar
      exact Option.some.inj hcar ▸ hmem
  | listed ano pd hmsg hpd hcar =>
    subst hmsg
    obtain ⟨c, hc, rfl⟩ := mem_of_listed hpd
    rw [createFrom_toData (hv c hc)] at hcar
    exact Option.some.inj hcar ▸ hc

/-! ## A car stays until its model is removed -/

theorem mem_of_write {msg : MessageT} (hw : StubWrite msg) {list : Cars} {d : DataT}
    (hd : d ∈ list.head) :
    d ∈ (invoke msg list).list.head ∨
      ∃ model, d.modelo = some model ∧ msg = rlistRemoveByModelRequest model := by
  cases hw with
  | add car =>
    rw [invoke_add rfl]
    rcases invokeAdd_cases (rlistAddRequest car) list with hr | ⟨_, _, _, _, _, hr⟩
    · rw [hr]
      exact Or.inl hd
    · rw [hr]
      exact Or.inl (List.mem_append_left _ hd)
  | remove model =>
    have hlist : (invoke (rlistRemoveByModelRequest model) list).list =
        (listRemoveByModel list model).2 := rfl
    rw [hlist]
    rcases listRemoveByModel_cases list model with ⟨hl, _, _⟩ | ⟨c, rest, hc, hp, hl⟩
    · rw [hl]
      exact Or.inl hd
    · rw [hl]
      rcases List.mem_cons.mp (hp.mem_iff.mp hd) with rfl | hrest
      · exact Or.inr ⟨model, (firstOfModel_mem hc).2, rfl⟩
      · exact Or.inl hrest

/-- The run version: over any writes that follow. -/
theorem mem_of_writes {msgs : List MessageT} (hw : ∀ msg ∈ msgs, StubWrite msg) {list : Cars}
    {d : DataT} (hd : d ∈ list.head) :
    d ∈ (msgs.foldl (fun list msg => (invoke msg list).list) list).head ∨
      ∃ model, d.modelo = some model ∧ rlistRemoveByModelRequest model ∈ msgs := by
  induction msgs generalizing list with
  | nil => exact Or.inl hd
  | cons msg msgs ih =>
    rw [List.forall_mem_cons] at hw
    rcases mem_of_write hw.1 hd with hd | ⟨model, hmodel, rfl⟩
    · rcases ih hw.2 hd with hd | ⟨model, hmodel, hmem⟩
      · exact Or.inl hd
      · exact Or.inr ⟨model, hmodel, List.mem_cons_of_mem _ hmem⟩
    · exact Or.inr ⟨model, hmodel, List.mem_cons_self⟩

theorem mem_execute_take {msgs : List MessageT} (hw : ∀ msg ∈ msgs, StubWrite msg) {d : DataT}
    {i j : Nat} (hij : i ≤ j) (hd : d ∈ (execute (msgs.take i)).head) :
    d ∈ (execute (msgs.take j)).head ∨
      ∃ model, d.modelo = some model ∧
        rlistRemoveByModelRequest model ∈ (msgs.take j).drop i := by
  have hsplit : msgs.take j = msgs.take i ++ (msgs.take j).drop i := by
    calc msgs.take j = (msgs.take j).take i ++ (msgs.take j).drop i :=
          (List.take_append_drop i (msgs.take j)).symm
      _ = msgs.take i ++ (msgs.take j).drop i := by rw [List.take_take, Nat.min_eq_left hij]
  have hexec : execute (msgs.take j) =
      ((msgs.take j).drop i).foldl (fun list msg => (invoke msg list).list)
        (execute (msgs.take i)) := by
    conv_lhs => rw [hsplit]
    rw [execute, execute, List.foldl_append]
  rw [hexec]
  exact mem_of_writes (fun msg hmsg => hw msg (List.mem_of_mem_take (List.mem_of_mem_drop hmsg))) hd

theorem reachable_execute (msgs : List MessageT) : Reachable (execute msgs) := by
  induction msgs using List.reverseRecOn with
  | nil => exact Reachable.create
  | append_singleton msgs msg ih =>
    rw [execute, List.foldl_append]
    exact Reachable.invoke msg ih

/-! ## No car from nowhere -/

variable {packedSize : MessageT → Nat} {n : Nat} {ok : State → Action → Prop} {s s' : State}

/-- A client sent the add that makes this car. -/
def WasSent (hist : List Event) (d : DataT) : Prop :=
  ∃ id server car, .call id server (rlistAddRequest car) ∈ hist ∧ dataDup car = some d

theorem WasSent.mono {hist hist' : List Event} (hsub : ∀ e ∈ hist, e ∈ hist') {d : DataT}
    (h : WasSent hist d) : WasSent hist' d := by
  obtain ⟨id, server, car, hcall, hdup⟩ := h
  exact ⟨id, server, car, hsub _ hcall, hdup⟩

theorem WasSent.valid {hist : List Event} {d : DataT} (h : WasSent hist d) : d.Valid := by
  obtain ⟨_, _, _, _, hdup⟩ := h
  exact dataCreate_valid hdup

/-- Every request in the chain, and every answer, goes back to what a client
sent, whatever fails. -/
theorem called_of_stubClients (hok : ∀ s a, ok s a → StubClients s a)
    (h : Reach (Does (step packedSize n)) ok (initial n) s) : Called s := by
  refine h.invariant (I := Called) ⟨?_, ?_⟩ ?_
  · rintro i req (hr | ⟨_, hj, _⟩)
    · exact absurd hr List.not_mem_nil
    · cases hj
  · intro a ha
    cases ha
  · intro s a s' hr hc _ hstep
    exact called_step (wellformed_of_reach hok hr) hc hstep

/-- What servers hold, are about to report and have reported was sent, and sent
before it was reported. -/
structure Sourced (s : State) : Prop where
  list : ∀ k, ∀ d ∈ (s.server k).list.head, WasSent s.hist d
  job : ∀ k j, (s.server k).job = some j → ∀ d, Reports j.req.msg j.reply d → WasSent s.hist d
  ret : ∀ x, .ret x ∈ s.hist → ∀ d, Reports x.msg x.reply d → ∃ id server car,
    [.call id server (rlistAddRequest car), .ret x].Sublist s.hist ∧ dataDup car = some d

/-- `invoke` adds nothing but the car that was sent. -/
theorem wasSent_invoke {hist : List Event} {req : Request} (hs : Sent packedSize req)
    (hcall : ∃ server, .call req.id server req.msg ∈ hist) {list : Cars}
    (hlist : ∀ d ∈ list.head, WasSent hist d) :
    ∀ d ∈ (invoke req.msg list).list.head, WasSent hist d := by
  intro d hd
  obtain ⟨server, hcall⟩ := hcall
  rcases hs.kind with hw | ⟨hr, _⟩
  · generalize hmsg : req.msg = msg at hw hcall hd
    cases hw with
    | add car =>
      rw [invoke_add rfl] at hd
      rcases invokeAdd_cases (rlistAddRequest car) list with hi | ⟨pd, c, _, hpd, hc, hi⟩
      · rw [hi] at hd
        exact hlist d hd
      · rw [hi] at hd
        rcases List.mem_append.mp hd with hd | hd
        · exact hlist d hd
        · have hdata : toData car = pd := Option.some.inj hpd
          rw [← hdata, Remote.createFrom_toData_eq_dataDup] at hc
          exact ⟨req.id, server, car, hcall, List.mem_singleton.mp hd ▸ hc⟩
    | remove model =>
      have hl : (invoke (rlistRemoveByModelRequest model) list).list =
          (listRemoveByModel list model).2 := rfl
      rw [hl] at hd
      rcases listRemoveByModel_cases list model with ⟨hl, _, _⟩ | ⟨c, rest, _, hp, hl⟩
      · rw [hl] at hd
        exact hlist d hd
      · rw [hl] at hd
        exact hlist d (hp.mem_iff.mpr (List.mem_cons_of_mem c hd))
  · have hsh := Replica.shuffled_of_read (isWriteOp_of_stubRead hr) list
    exact hlist d (hsh.perm.mem_iff.mpr hd)

/-- A write reports at most the car it was sent with. -/
theorem wasSent_of_write {hist : List Event} {id : Nat} {msg reply : MessageT} {d : DataT}
    (hw : isWriteOp msg = true) (hcall : ∃ server, .call id server msg ∈ hist)
    (h : Reports msg reply d) : WasSent hist d := by
  obtain ⟨server, hcall⟩ := hcall
  cases h with
  | added car hmsg _ hdup =>
    subst hmsg
    exact ⟨id, server, car, hcall, hdup⟩
  | found marca _ hmsg _ _ _ =>
    rw [hmsg, isWriteOp_of_stubRead (.getByMarca marca)] at hw
    cases hw
  | listed ano _ hmsg _ _ =>
    rw [hmsg, isWriteOp_of_stubRead (.getByYear ano)] at hw
    cases hw

theorem sourced_step (hwf : Wellformed packedSize s) (hc : Called s) (hs : Sourced s) {a : Action}
    (h : step packedSize n s a = some s') : Sourced s' := by
  have hmono : ∀ e ∈ s.hist, e ∈ s'.hist := fun e he =>
    mem_hist_of_reach he (.step .init trivial h : Reach _ (fun _ _ => True) s s')
  have hc' := called_step hwf hc h
  constructor
  · intro k d hd
    rcases server_step h k with hsame | ⟨l, req, rfl, _, _, hl, rfl⟩ | ⟨_, _, hlist, _⟩
    · rw [hsame.list] at hd
      exact (hs.list k d hd).mono hmono
    · rw [State.set_self] at hd
      have hreq : (s.server k).Holds req := Or.inl (List.mem_of_getElem? hl)
      exact wasSent_invoke (hwf.sent k req hreq) (hc.held k req hreq) (hs.list k) d hd
    · rw [hlist] at hd
      exact (hs.list k d hd).mono hmono
  · intro k j' hj' d hd
    cases hw : isWriteOp j'.req.msg with
    | true => exact wasSent_of_write hw (hc'.held k _ (holds_of_job hj')) hd
    | false =>
      rcases job_source h hj' with hj | ⟨l, req, rfl, _, rfl, hnew⟩ | ⟨j, hj, hadv⟩
      · exact (hs.job k j' hj d hd).mono hmono
      · cases hnew
        have hr : isWriteOp req.msg = false := hw
        have hreply : (afterInvoke req.msg (invoke req.msg (s.server k).list)).1 =
            (invoke req.msg (s.server k).list).msg := by rw [afterInvoke_invoke]
        rw [hreply] at hd
        have hv : ∀ c ∈ (s.server k).list.head, c.Valid := fun c hcar => (hs.list k c hcar).valid
        exact (hs.list k d (mem_of_read hr hv hd)).mono hmono
      · rw [hadv.req, hwf.jobs k j hj hadv.not_ready] at hw
        cases hw
  · intro x hx d hd
    rcases hist_step h with ⟨hh, _⟩ | ⟨_, _, _, hh, _⟩ | ⟨i, j, _, hj, _, _, hh, _⟩
    · rw [hh] at hx ⊢
      exact hs.ret x hx d hd
    · rw [hh] at hx ⊢
      rcases List.mem_append.mp hx with hx | hx
      · obtain ⟨id, server, car, hsub, hdup⟩ := hs.ret x hx d hd
        exact ⟨id, server, car, hsub.trans (List.sublist_append_left _ _), hdup⟩
      · cases List.mem_singleton.mp hx
    · rw [hh] at hx ⊢
      rcases List.mem_append.mp hx with hx | hx
      · obtain ⟨id, server, car, hsub, hdup⟩ := hs.ret x hx d hd
        exact ⟨id, server, car, hsub.trans (List.sublist_append_left _ _), hdup⟩
      · cases List.mem_singleton.mp hx
        obtain ⟨id, server, car, hcall, hdup⟩ := hs.job i j hj d hd
        exact ⟨id, server, car,
          (List.singleton_sublist.mpr hcall).append (List.Sublist.refl _), hdup⟩

theorem sourced_of_reach (hok : ∀ s a, ok s a → StubClients s a)
    (h : Reach (Does (step packedSize n)) ok (initial n) s) : Sourced s := by
  refine h.invariant (I := Sourced) ⟨?_, ?_, ?_⟩ ?_
  · intro k d hd
    cases hd
  · intro k j hj
    cases hj
  · intro x hx
    cases hx
  · intro s a s' hr hs _ hstep
    exact sourced_step (wellformed_of_reach hok hr) (called_of_stubClients hok hr) hs hstep

/-- **No car from nowhere.**  Whatever crashes, fails and is reconfigured, what
a server holds was sent to the chain by a client, and what a client was told was
sent before. -/
theorem reported_was_sent (h : Reach (Does (step packedSize n)) StubClients (initial n) s) :
    (∀ k, ∀ d ∈ (s.server k).list.head, WasSent s.hist d) ∧
      ∀ x, .ret x ∈ s.hist → ∀ d, Reports x.msg x.reply d → ∃ id server car,
        [.call id server (rlistAddRequest car), .ret x].Sublist s.hist ∧ dataDup car = some d :=
  have hs := sourced_of_reach (fun _ _ ha => ha) h
  ⟨hs.list, hs.ret⟩

/-- A car is added, the first server crashes, and the second one is asked. -/
def crashRun : List Action :=
  passPair (addOf 97 2020) ++
    [.crash 0, .send 1 (rlistGetByYearRequest 2020), .handle 1 0, .answer 1]

theorem reported_was_sent_crashRun : ∃ s,
    Reach (Does (step messageTGetPackedSize 2)) StubClients (initial 2) s ∧
      (s.server 1).list.head.length = 1 ∧ ∀ d ∈ (s.server 1).list.head, WasSent s.hist d := by
  have hrun : ∃ s, Reach (Does (step messageTGetPackedSize 2)) StubClients (initial 2) s ∧
      (s.server 1).list.head.length = 1 ∧ s.hist.length = 4 :=
    exists_reach_of_replay crashRun _ (by decide)
  obtain ⟨s, hr, hlist, _⟩ := hrun
  exact ⟨s, hr, hlist, (reported_was_sent hr).1 1⟩

/-! ## In a chain without failures -/

/-- Every write a server applied is one of the stubs. -/
theorem applied_stubWrite (hok : ∀ s a, ok s a → StubClients s a)
    (h : Reach (Does (step packedSize n)) ok (initial n) s) (k : Nat) :
    ∀ e ∈ (s.server k).applied, StubWrite e.msg := by
  refine h.invariant (I := fun s => ∀ e ∈ (s.server k).applied, StubWrite e.msg)
    (fun e he => absurd he List.not_mem_nil) ?_
  intro s a s' hr hk _ hstep
  rcases server_step hstep k with hsame | ⟨l, req, rfl, _, _, hl, rfl⟩ | ⟨_, _, _, happ⟩
  · rw [hsame.applied]
    exact hk
  · rw [State.set_self, handled_applied]
    split
    · rename_i hw
      have hreq : (s.server k).Holds req := Or.inl (List.mem_of_getElem? hl)
      intro e he
      rcases List.mem_append.mp he with he | he
      · exact hk e he
      · rw [List.mem_singleton.mp he]
        exact ((wellformed_of_reach hok hr).sent k req hreq).isWriteOp_iff.mp hw
    · exact hk
  · rw [happ]
    exact hk

/-- What was reported holds of the list after the writes up to the answer. -/
theorem mem_of_reports (hok : ∀ s a, ok s a → Static packedSize (TailRead n) s a)
    (h : Reach (Does (step packedSize n)) ok (initial n) s) {x : Answer} (hx : .ret x ∈ s.hist)
    {d : DataT} (hd : Reports x.msg x.reply d) :
    d ∈ (execute ((s.server 0).msgs.take x.upTo)).head := by
  cases hw : isWriteOp x.msg with
  | false =>
    obtain ⟨_, hreply⟩ := (readsFaithful_of_reach hok h).hist x hx hw
    rw [hreply] at hd
    rw [Answer.upTo, hw, if_neg (by simp)]
    exact mem_of_read hw (reachable_execute _).wellFormed.valid hd
  | true =>
    obtain ⟨e, he, hwrite, hreply⟩ := (faithful_of_reach hok h).hist x hx hw
    have hmsg : e.msg = x.msg := congrArg Relay.Write.msg hwrite
    have hafter : (s.server 0).msgs[x.seen]? = some x.msg := by
      rw [Server.msgs, List.getElem?_map, he, Option.map_some, hmsg]
    have hexec : execute ((s.server 0).msgs.take (x.seen + 1)) =
        (invoke x.msg (execute ((s.server 0).msgs.take x.seen))).list := by
      rw [List.take_add_one, hafter, execute, List.foldl_append]
      rfl
    have hmade := reply_eq_replyAfter hok h he
    rw [hreply, hmsg, replyAfter] at hmade
    rw [Answer.upTo, hw, if_pos rfl, hexec]
    cases hd with
    | added car hadd hop hdup =>
      rw [hmade, hadd, invoke_add rfl] at hop
      rw [hadd, invoke_add rfl]
      rcases invokeAdd_cases (rlistAddRequest car) (execute ((s.server 0).msgs.take x.seen))
        with hi | ⟨pd, c, _, hpd, hc, hi⟩
      · rw [hi] at hop
        exact absurd hop (by simp)
      · have hdata : toData car = pd := Option.some.inj hpd
        rw [← hdata, Remote.createFrom_toData_eq_dataDup, hdup] at hc
        rw [hi, Option.some.inj hc]
        exact List.mem_append_right _ (List.mem_singleton_self c)
    | found marca _ hget _ _ _ =>
      rw [hget, isWriteOp_of_stubRead (.getByMarca marca)] at hw
      cases hw
    | listed ano _ hget _ _ =>
      rw [hget, isWriteOp_of_stubRead (.getByYear ano)] at hw
      cases hw

/-- **What was reported shows until it is removed.**  A read sent after an answer
that reported a car says what a read of its kind says while the car is there, or
a removal of its model took effect between the two. -/
theorem reported_until_removed
    (h : Reach (Does (step packedSize n)) (Static packedSize (TailRead n)) (initial n) s)
    {x y : Answer} {d : DataT} (hd : Reports x.msg x.reply d) (hy : .ret y ∈ s.hist)
    (hread : isWriteOp y.msg = false) (hxy : AnsweredBefore s.hist x y.id) :
    Shows d y.msg y.reply ∨
      ∃ model, d.modelo = some model ∧
        rlistRemoveByModelRequest model ∈ ((s.server 0).msgs.take y.seen).drop x.upTo := by
  have hok : ∀ s a, Static packedSize (TailRead n) s a → Static packedSize (TailRead n) s a :=
    fun _ _ ha => ha
  have hx := mem_of_reports hok h hxy.mem hd
  have hle : x.upTo ≤ y.seen := (realTime_of_reach hok h).ret y hy x hxy
  have hwrites : ∀ msg ∈ (s.server 0).msgs, StubWrite msg := by
    intro msg hmsg
    obtain ⟨e, he, rfl⟩ := List.mem_map.mp hmsg
    exact applied_stubWrite (fun _ _ ha => static_stubClients ha) h 0 e he
  obtain ⟨_, hreply⟩ := (readsFaithful_of_reach hok h).hist y hy hread
  rcases mem_execute_take hwrites hle hx with hmem | hremoved
  · left
    rw [hreply]
    exact shows_of_mem (reachable_execute _).wellFormed hmem y.msg
  · exact Or.inr hremoved

/-- The answer to the add of the run, and that to the listing after it. -/
def addAnswer : Answer :=
  ⟨0, 0, addOf 97 2020, (invoke (addOf 97 2020) listCreate).msg, 0⟩

def yearAnswer : Answer :=
  ⟨1, 1, rlistGetByYearRequest 2020, replyAfter [addOf 97 2020] (rlistGetByYearRequest 2020), 1⟩

theorem reported_until_removed_yearAnswer : ∃ s d,
    Reach (Does (step messageTGetPackedSize 2)) (Static messageTGetPackedSize (TailRead 2))
        (initial 2) s ∧
      .ret yearAnswer ∈ s.hist ∧ toData d ∈ yearAnswer.reply.cars := by
  have hrun : ∃ s, Reach (Does (step messageTGetPackedSize 2))
      (Static messageTGetPackedSize (TailRead 2)) (initial 2) s ∧
      s.hist = [.call 0 0 (addOf 97 2020), .ret addAnswer,
        .call 1 1 (rlistGetByYearRequest 2020), .ret yearAnswer] ∧
      (s.server 0).msgs = [addOf 97 2020] :=
    exists_reach_of_replay (passPair (addOf 97 2020) ++
      [.send 1 (rlistGetByYearRequest 2020), .handle 1 0, .answer 1]) _ (by decide)
  obtain ⟨s, hr, hhist, hmsgs⟩ := hrun
  have hd : Reports addAnswer.msg addAnswer.reply ⟨2020, 0, 1, some (cString [97]), 1⟩ :=
    .added _ rfl (by decide) (by decide)
  have hy : .ret yearAnswer ∈ s.hist := by
    rw [hhist]
    simp
  have hxy : AnsweredBefore s.hist addAnswer yearAnswer.id := by
    rw [hhist]
    exact ⟨1, rlistGetByYearRequest 2020, by decide⟩
  rcases reported_until_removed hr hd hy (by decide) hxy with hshows | ⟨_, _, hremoved⟩
  · exact ⟨s, _, hr, hy, hshows.byYear rfl⟩
  · rw [hmsgs] at hremoved
    cases hremoved

end CarChain.Chain
