import Grvy.Ocore.Ownership

/-!
Popping the records of a worker.

`PopRecord` points an iterator at the first entry of `rank_map`, reads the
record, erases the entry, and returns the index that the iterator points at.
By then the entry is gone. Reading through an iterator is modelled by what the
map holds at that moment, so that the value returned is one thing and the entry
the iterator stood for is another: the entries go in index order, each with its
block, and no index comes back.
-/

namespace Grvy.Ocore

open Std (TreeMap)
open Grvy.Lib
open Grvy.Lib.MessagePassing

variable {Block : Type} {job : Job Block} {rank : ℕ}

/-! ### The function -/

/-- `it->first`, for an iterator to the entry of the index `it`. There is nothing
to read once the entry has been erased. -/
def Client.first (it : SizeT) (client : Client) : Option SizeT :=
  if it ∈ client.rankMap then some it else none

/-- `NumActive` -/
def Client.numActive (client : Client) : ℕ := client.rankMap.size

/-- What one call of `PopRecord` hands to its caller. -/
structure Popped (Block : Type) where
  /-- The value of `return(it->first)`. -/
  index : Option SizeT
  data : Block

namespace Session

/-- The block that the last call has delivered. -/
def delivered (ss : Session Block) : Option Block :=
  match ss.returned.getLast? with
  | some (.delivered data) => some data
  | _ => none

/-- `PopRecord`; `none` where the code calls `Abort`. -/
def popRecord (job : Job Block) (rank : ℕ) (ss : Session Block) :
    Option (Popped Block × Session Block) :=
  match ss.client.rankMap.toList.head? with
  | none => none
  | some (it, _) => do
      let ss ← ss.run job rank (.read it)
      let data ← ss.delivered
      let ss := { ss with client := ss.client.forget (some it) }
      some ({ index := ss.client.first it, data := data }, ss)

/-- A number of calls of `PopRecord` in a row. -/
def popRecords (job : Job Block) (rank : ℕ) :
    ℕ → Session Block → Option (List (Popped Block) × Session Block)
  | 0, ss => some ([], ss)
  | n + 1, ss => do
      let (popped, ss) ← ss.popRecord job rank
      let (rest, ss) ← popRecords job rank n ss
      some (popped :: rest, ss)

/-! ### One call -/

@[simp] theorem first_forget (it : SizeT) (client : Client) :
    (client.forget (some it)).first it = none := by
  rw [Client.first, if_neg]
  rw [Client.forget, TreeMap.mem_erase]
  exact fun h => h.1 Std.compare_self

@[simp] theorem delivered_append (client : Client) (issued : List (Posted Block))
    (returned : List (Outcome Block)) (data : Block) :
    delivered ⟨client, issued, returned ++ [.delivered data]⟩ = some data := by
  rw [delivered, List.getLast?_concat]

/-- A call of `PopRecord` reads the first record and erases its entry. -/
theorem popRecord_cases {ss ss' : Session Block} {popped : Popped Block}
    (h : ss.popRecord job rank = some (popped, ss')) :
    ∃ it owner ss₁, ss.client.rankMap.toList.head? = some (it, owner) ∧
      ss.run job rank (.read it) = some ss₁ ∧ ss₁.delivered = some popped.data ∧
      ss' = { ss₁ with client := ss₁.client.forget (some it) } ∧ popped.index = none := by
  cases hhead : ss.client.rankMap.toList.head? with
  | none => simp [popRecord, hhead] at h
  | some e =>
      obtain ⟨it, owner⟩ := e
      simp only [popRecord, hhead] at h
      obtain ⟨ss₁, hrun, hrest⟩ := Option.bind_eq_some_iff.mp h
      obtain ⟨data, hdata, heq⟩ := Option.bind_eq_some_iff.mp hrest
      cases heq
      exact ⟨it, owner, ss₁, rfl, hrun, hdata, rfl, first_forget it _⟩

/-- The protocol's `PopRecord` sends and erases the same, and names the entry
that the iterator stood for. -/
theorem run_popRecord_iff {ss ss₂ : Session Block} :
    ss.run job rank .popRecord = some ss₂ ↔
      ∃ it owner popped ss', ss.client.rankMap.toList.head? = some (it, owner) ∧
        ss.popRecord job rank = some (popped, ss') ∧
        ss₂ = { ss' with returned := ss.returned ++ [.popped it popped.data] } := by
  cases hhead : ss.client.rankMap.toList.head? with
  | none => simp [run, Client.plan, hhead]
  | some e =>
      obtain ⟨it, owner⟩ := e
      have howner := (minKey?_eq_of_head?_toList hhead).2
      set posted : Posted Block := readFromPool owner it ss.returned.length with hposted
      have hanswer : ∀ popped, ss.answer posted popped =
          (lastPosted posted.header.offset (issuedTo owner ss.issued)).map
            (.received popped) := fun _ => rfl
      cases hlast : lastPosted posted.header.offset (issuedTo owner ss.issued) with
      | none =>
          simp only [hlast, Option.map_none] at hanswer
          simp [run, popRecord, Client.plan, hhead, howner, ← hposted, hanswer]
      | some data =>
          simp only [hlast, Option.map_some, Outcome.received] at hanswer
          have hread : ss.run job rank (.read it) = some ⟨ss.client, ss.issued ++ [posted],
              ss.returned ++ [.delivered data]⟩ := by
            simp [run, Client.plan, howner, ← hposted, hanswer, Client.forget]
          have hpop : ss.popRecord job rank = some (⟨none, data⟩,
              ⟨ss.client.forget (some it), ss.issued ++ [posted],
                ss.returned ++ [.delivered data]⟩) := by
            simp [popRecord, hhead, hread]
          have hrun : ss.run job rank .popRecord = some ⟨ss.client.forget (some it),
              ss.issued ++ [posted], ss.returned ++ [.popped it data]⟩ := by
            simp [run, Client.plan, hhead, ← hposted, hanswer]
          rw [hrun, hpop]
          constructor
          · intro h
            exact ⟨it, owner, _, _, rfl, rfl, (Option.some.inj h).symm⟩
          · rintro ⟨it', owner', popped, ss', he, hresult, rfl⟩
            cases he
            cases hresult
            rfl

/-- What is known of the records survives the erasing of one entry. -/
theorem Sound.popRecord {ss ss' : Session Block} {popped : Popped Block} (sound : ss.Sound job)
    (h : ss.popRecord job rank = some (popped, ss')) : ss'.Sound job := by
  obtain ⟨it, owner, -, hhead, -, -, -, -⟩ := popRecord_cases h
  have hsound := sound.run (run_popRecord_iff.mpr ⟨it, owner, popped, ss', hhead, h, rfl⟩)
  exact ⟨hsound.ranged, hsound.known⟩

/-! ### All records of a worker -/

/-- A record that the worker has is read from its owner. -/
theorem Agrees.run_read {ss : Session Block} {records : TreeMap SizeT Block}
    (agrees : ss.Agrees records) (sound : ss.Sound job) (rank : ℕ) {index : SizeT} {data : Block}
    (hrecord : records[index]? = some data) :
    ∃ ss₁, ss.run job rank (.read index) = some ss₁ ∧ ss₁.delivered = some data ∧
      ss₁.Agrees records := by
  have hcall : Call.run (job.allowEmptyRecordsOn rank) job.zero (.read index) records =
      some (.delivered data, records) := by
    rw [Call.run, hrecord]
  have hmem : index ∈ records := by
    rw [TreeMap.mem_iff_isSome_getElem?, hrecord]
    rfl
  obtain ⟨ss₁, hrun, -⟩ := (agrees.sameKeys sound).run_read sound rank hmem
  have hrange : (Call.read index : Call Block).InRange := by
    rw [← agrees.sameKeys sound index, TreeMap.mem_iff_isSome_getElem?] at hmem
    obtain ⟨owner, howner⟩ := Option.isSome_iff_exists.mp hmem
    exact agrees.carried index owner howner
  obtain ⟨hreturned, hagrees⟩ := agrees.run sound hrange hrun hcall
  refine ⟨ss₁, hrun, ?_, hagrees⟩
  rw [delivered, hreturned, List.getLast?_concat]

/-- Popping reads and removes the first record of the worker. -/
theorem Agrees.popRecord {ss : Session Block} {records : TreeMap SizeT Block}
    (agrees : ss.Agrees records) (sound : ss.Sound job) (rank : ℕ) {e : SizeT × Block}
    {rest : List (SizeT × Block)} (hrecords : records.toList = e :: rest) :
    ∃ ss', ss.popRecord job rank = some (⟨none, e.2⟩, ss') ∧ ss'.Agrees (records.erase e.1) := by
  have hhead : records.toList.head? = some e := by rw [hrecords, List.head?_cons]
  rcases head?_toList_congr (agrees.sameKeys sound) with ⟨-, hnone⟩ | ⟨it, owner, v, hfirst, hv⟩
  · rw [hnone] at hhead
    cases hhead
  · obtain rfl : (it, v) = e := Option.some.inj (hv.symm.trans hhead)
    obtain ⟨ss₁, hrun, hdata, hagrees⟩ :=
      agrees.run_read sound rank (minKey?_eq_of_head?_toList hv).2
    refine ⟨{ ss₁ with client := ss₁.client.forget (some it) }, ?_, hagrees.erase it⟩
    simp [Session.popRecord, hfirst, hrun, hdata]

theorem popRecords_succ {n : ℕ} {ss ss₁ ss' : Session Block} {popped : Popped Block}
    {rest : List (Popped Block)} (h : ss.popRecord job rank = some (popped, ss₁))
    (hrest : ss₁.popRecords job rank n = some (rest, ss')) :
    ss.popRecords job rank (n + 1) = some (popped :: rest, ss') := by
  simp [popRecords, h, hrest]

theorem popRecords_succ_cases {n : ℕ} {ss ss' : Session Block} {results : List (Popped Block)}
    (h : ss.popRecords job rank (n + 1) = some (results, ss')) :
    ∃ popped ss₁ rest, ss.popRecord job rank = some (popped, ss₁) ∧
      ss₁.popRecords job rank n = some (rest, ss') ∧ results = popped :: rest := by
  obtain ⟨⟨popped, ss₁⟩, hpop, htail⟩ := Option.bind_eq_some_iff.mp h
  obtain ⟨⟨rest, ss₂⟩, hrest, heq⟩ := Option.bind_eq_some_iff.mp htail
  cases heq
  exact ⟨popped, ss₁, rest, hpop, hrest, rfl⟩

/-- As many pops as there are records read them all, in the order of their
indices, and leave none. -/
theorem Agrees.popRecords {n : ℕ} {ss : Session Block} {records : TreeMap SizeT Block}
    (agrees : ss.Agrees records) (sound : ss.Sound job) (rank : ℕ)
    (hn : records.toList.length = n) :
    ∃ ss', ss.popRecords job rank n =
        some (records.toList.map fun e => ⟨none, e.2⟩, ss') ∧ ss'.client.numActive = 0 := by
  induction n generalizing ss records with
  | zero =>
      have hnil := List.length_eq_zero_iff.mp hn
      refine ⟨ss, by rw [hnil]; rfl, ?_⟩
      rw [Client.numActive, size_congr (agrees.sameKeys sound), ← TreeMap.length_toList, hn]
  | succ n ih =>
      obtain ⟨e, rest, hrecords⟩ := List.exists_cons_of_length_eq_add_one hn
      obtain ⟨ss₁, hpop, hagrees⟩ := agrees.popRecord sound rank hrecords
      have hrest := toList_erase_of_cons hrecords
      obtain ⟨ss', hpops, hzero⟩ := ih hagrees (sound.popRecord hpop) (by
        rw [hrest]
        rw [hrecords, List.length_cons] at hn
        omega)
      refine ⟨ss', ?_, hzero⟩
      rw [hrest] at hpops
      rw [hrecords]
      exact popRecords_succ hpop hpops

/-! ### Draining a worker -/

/-- What a drain of the records that `writes` leaves is to return: `value index`
for each index written, in increasing order, and the block last written to it. -/
def Drains (job : Job Block) (rank : ℕ) (writes : List (SizeT × Block))
    (value : SizeT → Option SizeT) : Prop :=
  ∃ (ss : Session Block) (results : List (Popped Block)) (ss' : Session Block)
      (indices : List SizeT), runAll job rank (writeCalls writes) new = some ss ∧
    ss.popRecords job rank ss.client.numActive = some (results, ss') ∧
    indices.Pairwise (· < ·) ∧ (∀ i, i ∈ indices ↔ i ∈ writes.map Prod.fst) ∧
    results.map Popped.index = indices.map value ∧
    results.map (fun popped => some popped.data) =
      indices.map (fun i => lastWrite i (writeCalls writes)) ∧
    ss'.client.numActive = 0

/-- Each call of `PopRecord` returns the index that it has popped. -/
def DrainsInOrder (job : Job Block) (rank : ℕ) (writes : List (SizeT × Block)) : Prop :=
  Drains job rank writes some

theorem lastWrite_isSome_iff (i : SizeT) (writes : List (SizeT × Block)) :
    (lastWrite i (writeCalls writes)).isSome ↔ i ∈ writes.map Prod.fst := by
  induction writes with
  | nil => simp [writeCalls, lastWrite]
  | cons w writes ih =>
      change (lastWrite i (Call.write w.1 w.2 :: writeCalls writes)).isSome ↔ _
      rw [lastWrite_cons, Option.isSome_or, Bool.or_eq_true, ih, List.map_cons, List.mem_cons,
        or_comm]
      refine or_congr ?_ Iff.rfl
      by_cases hi : w.1 = i
      · simp [Call.writes, hi]
      · simp [Call.writes, hi, Ne.symm hi]

/-- Where the sequential program runs through, so does the session. -/
theorem SameKeys.runAll {ss : Session Block} {records records' : TreeMap SizeT Block}
    {calls : List (Call Block)} {outcomes : List (Outcome Block)} (hkeys : ss.SameKeys records)
    (sound : ss.Sound job)
    (h : Call.runAll (job.allowEmptyRecordsOn rank) job.zero calls records =
      some (outcomes, records')) :
    ∃ ss', runAll job rank calls ss = some ss' ∧ ss'.SameKeys records' ∧ ss'.Sound job := by
  induction calls generalizing ss records outcomes with
  | nil =>
      cases h
      exact ⟨ss, rfl, hkeys, sound⟩
  | cons c calls ih =>
      obtain ⟨⟨outcome, records₁⟩, hcall, htail⟩ := Option.bind_eq_some_iff.mp h
      obtain ⟨⟨rest, records₂⟩, hrest, heq⟩ := Option.bind_eq_some_iff.mp htail
      cases heq
      rcases hkeys.run sound rank c with
        ⟨-, hnone⟩ | ⟨ss₁, outcome', records₁', hrun, hcall', hkeys₁⟩
      · rw [hcall] at hnone
        cases hnone
      · obtain ⟨-, rfl⟩ := Prod.mk.inj (Option.some.inj (hcall.symm.trans hcall'))
        obtain ⟨ss', hall, hss'⟩ := ih hkeys₁ (sound.run hrun) hrest
        exact ⟨ss', by rw [Session.runAll, hrun, Option.bind_some, hall], hss'⟩

/-- Writes run through, and leave the blocks last written. -/
theorem runAll_writeCalls (allowEmpty : Bool) (zero : Block) (writes : List (SizeT × Block))
    (records : TreeMap SizeT Block) :
    ∃ outcomes records', Call.runAll allowEmpty zero (writeCalls writes) records =
      some (outcomes, records') := by
  induction writes generalizing records with
  | nil => exact ⟨[], records, rfl⟩
  | cons w writes ih =>
      obtain ⟨outcomes, records', h⟩ := ih (records.insert w.1 w.2)
      refine ⟨.written :: outcomes, records', ?_⟩
      change Call.runAll allowEmpty zero (Call.write w.1 w.2 :: writeCalls writes) records = _
      simp [Call.runAll, Call.run, h]

/-- The records that a list of writes leaves. -/
theorem exists_written (job : Job Block) (rank : ℕ) (writes : List (SizeT × Block)) :
    ∃ outcomes records, Call.runAll (job.allowEmptyRecordsOn rank) job.zero (writeCalls writes) ∅ =
        some (outcomes, records) ∧ ∀ i : SizeT, records[i]? = lastWrite i (writeCalls writes) := by
  obtain ⟨outcomes, records, h⟩ :=
    runAll_writeCalls (job.allowEmptyRecordsOn rank) job.zero writes ∅
  refine ⟨outcomes, records, h, fun i => ?_⟩
  have hnopop : ∀ c ∈ writeCalls writes, c ≠ .popRecord := fun c hc heq =>
    popRecord_notMem_writeCalls writes (heq ▸ hc)
  rw [Call.runAll_records hnopop h, TreeMap.getElem?_emptyc, Option.or_none]

/-- Apart from the value returned, the pops do what they are for: the records
come in the order of their indices, each with its block, and none is left. -/
theorem drains_without_index (job : Job Block) (rank : ℕ) {writes : List (SizeT × Block)}
    (hwrites : ∀ w ∈ writes, Carried w.1) : Drains job rank writes fun _ => none := by
  obtain ⟨outcomes, records, hcalls, hrecords⟩ := exists_written job rank writes
  obtain ⟨ss, hrun, hkeys, sound⟩ :=
    SameKeys.runAll (fun i => by simp [new, Client.new]) (sound_new job) hcalls
  have hrange : ∀ c ∈ writeCalls writes, c.InRange := by
    intro c hc
    obtain ⟨w, hw, rfl⟩ := List.mem_map.mp hc
    exact hwrites w hw
  obtain ⟨outcomes', records', hcalls', -, agrees⟩ :=
    runAll_returned agrees_new (sound_new job) hrange hrun
  obtain ⟨-, rfl⟩ := Prod.mk.inj (Option.some.inj (hcalls.symm.trans hcalls'))
  have hsize : records.toList.length = ss.client.numActive := by
    rw [TreeMap.length_toList, Client.numActive, size_congr hkeys]
  obtain ⟨ss', hpops, hzero⟩ := agrees.popRecords sound rank hsize
  refine ⟨ss, _, ss', records.toList.map Prod.fst, hrun, hpops, ?_, fun i => ?_, ?_, ?_, hzero⟩
  · rw [List.pairwise_map]
    have hordered : records.toList.Pairwise fun a b => compare a.1 b.1 = .lt :=
      TreeMap.ordered_keys_toList
    exact hordered.imp fun h => compareOfLessAndEq_eq_lt.mp h
  · rw [TreeMap.map_fst_toList_eq_keys, TreeMap.mem_keys, TreeMap.mem_iff_isSome_getElem?,
      hrecords, lastWrite_isSome_iff]
  · rw [List.map_map, List.map_map]
    rfl
  · rw [List.map_map, List.map_map]
    refine List.map_congr_left fun e he => ?_
    have hdata := TreeMap.mem_toList_iff_getElem?_eq_some.mp he
    exact hdata.symm.trans (hrecords e.1)

/-- The first pop of a worker that has a record returns no index. -/
theorem not_drainsInOrder (job : Job Block) (rank : ℕ) {writes : List (SizeT × Block)}
    (h : writes ≠ []) : ¬DrainsInOrder job rank writes := by
  rintro ⟨ss, results, ss', indices, -, hpops, -, hindices, hresults, -, -⟩
  obtain ⟨w, writes, rfl⟩ := List.exists_cons_of_ne_nil h
  have hmem : w.1 ∈ indices := (hindices w.1).mpr List.mem_cons_self
  obtain ⟨i, rest, rfl⟩ := List.exists_cons_of_ne_nil (List.ne_nil_of_mem hmem)
  cases hn : ss.client.numActive with
  | zero =>
      rw [hn] at hpops
      cases hpops
      cases hresults
  | succ n =>
      rw [hn] at hpops
      obtain ⟨popped, ss₁, results₁, hpop, -, rfl⟩ := popRecords_succ_cases hpops
      obtain ⟨-, -, -, -, -, -, -, hnone⟩ := popRecord_cases hpop
      rw [List.map_cons, List.map_cons, hnone] at hresults
      cases List.head_eq_of_cons_eq hresults

/-- **Popping in order.** Draining a worker returns the indices it has written if
and only if it has written none. -/
theorem drainsInOrder_iff (job : Job Block) (rank : ℕ) (writes : List (SizeT × Block)) :
    DrainsInOrder job rank writes ↔ writes = [] := by
  constructor
  · intro h
    by_contra hne
    exact not_drainsInOrder job rank hne h
  · rintro rfl
    exact ⟨new, [], new, [], rfl, rfl, List.Pairwise.nil, fun i => Iff.rfl, rfl, rfl, rfl⟩

/-- A worker that has written one record and pops it. -/
theorem popper_not_drainsInOrder : ¬DrainsInOrder popper 0 [(0, 5)] :=
  not_drainsInOrder popper 0 (List.cons_ne_nil _ _)

/-! ### Pops in the protocol -/

theorem run_returned {ss ss' : Session Block} {c : Call Block} (h : ss.run job rank c = some ss') :
    ∃ outcome, ss'.returned = ss.returned ++ [outcome] := by
  obtain ⟨client, posted, popped, outcome, -, -, rfl⟩ | ⟨-, rfl⟩ := run_cases h
  · exact ⟨outcome, rfl⟩
  · exact ⟨.delivered job.zero, rfl⟩

/-- Each call adds what it returns. -/
theorem runAll_returned_append {ss ss' : Session Block} {calls : List (Call Block)}
    (h : runAll job rank calls ss = some ss') :
    ∃ outcomes, ss'.returned = ss.returned ++ outcomes ∧ outcomes.length = calls.length := by
  induction calls generalizing ss with
  | nil =>
      obtain rfl := Option.some.inj h
      exact ⟨[], (List.append_nil _).symm, rfl⟩
  | cons c calls ih =>
      obtain ⟨ss₁, hrun, hrest⟩ := Option.bind_eq_some_iff.mp h
      obtain ⟨outcome, hreturned⟩ := run_returned hrun
      obtain ⟨outcomes, hreturned', hlen⟩ := ih hrest
      refine ⟨outcome :: outcomes, ?_, by rw [List.length_cons, List.length_cons, hlen]⟩
      rw [hreturned', hreturned, List.append_assoc]
      rfl

end Session

/-- A pop that has been completed under any interleaving is one of the worker by
itself, after the calls before it. -/
theorem Job.Reachable.popRecord_returned {s : OcoreState Block} (hreach : job.Reachable s) {k : ℕ}
    {outcome : Outcome Block} (hc : (job.program rank)[k]? = some .popRecord)
    (hk : (workerOf s rank).returned[k]? = some outcome) :
    ∃ ss popped ss' it, Session.runAll job rank ((job.program rank).take k) .new = some ss ∧
      ss.popRecord job rank = some (popped, ss') ∧ outcome = .popped it popped.data ∧
      popped.index = none := by
  obtain ⟨ss', hfollow⟩ := hreach.following rank
  have hlt : k < (workerOf s rank).returned.length := (List.getElem?_eq_some_iff.mp hk).1
  have hrun := hfollow.run
  have hcalls := List.take_append_drop k
    ((job.program rank).take (workerOf s rank).returned.length)
  have hc' : ((job.program rank).take (workerOf s rank).returned.length)[k]? =
      some .popRecord := by
    rw [List.getElem?_take_of_lt hlt, hc]
  rw [List.take_take, Nat.min_eq_left (Nat.le_of_lt hlt), List.drop_eq_getElem?_toList_append, hc',
    Option.toList_some, List.singleton_append] at hcalls
  rw [← hcalls, Session.runAll_append] at hrun
  obtain ⟨ss, hbefore, hrest⟩ := Option.bind_eq_some_iff.mp hrun
  obtain ⟨ss₂, hpop, hafter⟩ := Option.bind_eq_some_iff.mp hrest
  obtain ⟨it, owner, popped, ss₁, -, hpopped, rfl⟩ := Session.run_popRecord_iff.mp hpop
  obtain ⟨-, -, -, -, -, -, -, hnone⟩ := Session.popRecord_cases hpopped
  refine ⟨ss, popped, ss₁, it, hbefore, hpopped, ?_, hnone⟩
  obtain ⟨before, hreturned, hlen⟩ := Session.runAll_returned_append hbefore
  obtain ⟨after, hreturned', -⟩ := Session.runAll_returned_append hafter
  have hprogram : k < (job.program rank).length := (List.getElem?_eq_some_iff.mp hc).1
  have hk' : ss.returned.length = k := by
    rw [hreturned, Session.new, List.nil_append, hlen, List.length_take]
    omega
  rw [hfollow.returned, hreturned', List.append_assoc, List.getElem?_append_right (by omega), hk',
    Nat.sub_self] at hk
  exact (Option.some.inj hk).symm

end Grvy.Ocore
