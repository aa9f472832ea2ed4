import NodeSrt.AsyncValues
import NodeSrt.Numbers

/-! # Statistics

`NodeSRT::Stats` copies the members of the native record into an object, one by one and each
under a name of its own. The names and the members are listed as the source has them, and so
is the interface the object is declared to have. -/
namespace Stats

open AsyncValues
open Numbers

inductive Field where
  | msTimeStamp | pktSentTotal | pktRecvTotal | pktSndLossTotal | pktRcvLossTotal
  | pktRetransTotal | pktSentACKTotal | pktRecvACKTotal | pktSentNAKTotal | pktRecvNAKTotal
  | pktSndDropTotal | pktRcvDropTotal | pktRcvUndecryptTotal | byteSentTotal | byteRecvTotal
  | byteRcvLossTotal | byteRetransTotal | byteSndDropTotal | byteRcvDropTotal
  | byteRcvUndecryptTotal | pktSent | pktRecv | pktSndLoss | pktRcvLoss | pktRetrans
  | pktRcvRetrans | pktSentACK | pktRecvACK | pktSentNAK | pktRecvNAK | mbpsSendRate
  | mbpsRecvRate | usSndDuration | pktReorderDistance | pktRcvAvgBelatedTime | pktRcvBelated
  | pktSndDrop | pktRcvDrop | pktRcvUndecrypt | byteSent | byteRecv | byteRcvLoss | byteRetrans
  | byteSndDrop | byteRcvDrop | byteRcvUndecrypt | usPktSndPeriod | pktFlowWindow
  | pktCongestionWindow | pktFlightSize | msRTT | mbpsBandwidth | byteAvailSndBuf
  | byteAvailRcvBuf | mbpsMaxBW | byteMSS | pktSndBuf | byteSndBuf | msSndBuf | msSndTsbPdDelay
  | pktRcvBuf | byteRcvBuf | msRcvBuf | msRcvTsbPdDelay | pktSndFilterExtraTotal
  | pktRcvFilterExtraTotal | pktRcvFilterSupplyTotal | pktRcvFilterLossTotal | pktSndFilterExtra
  | pktRcvFilterExtra | pktRcvFilterSupply | pktRcvFilterLoss | pktReorderTolerance
  | pktSentUniqueTotal | pktRecvUniqueTotal | byteSentUniqueTotal | byteRecvUniqueTotal
  | pktSentUnique | pktRecvUnique | byteSentUnique | byteRecvUnique | usSndDurationTotal
  deriving DecidableEq, Repr

/-- The fields of the interface, in `srt-api-types.ts`. -/
def SRTStats : List Field :=
  [.msTimeStamp, .pktSentTotal, .pktRecvTotal, .pktSndLossTotal, .pktRcvLossTotal,
    .pktRetransTotal, .pktSentACKTotal, .pktRecvACKTotal, .pktSentNAKTotal, .pktRecvNAKTotal,
    .pktSndDropTotal, .pktRcvDropTotal, .pktRcvUndecryptTotal, .byteSentTotal, .byteRecvTotal,
    .byteRcvLossTotal, .byteRetransTotal, .byteSndDropTotal, .byteRcvDropTotal,
    .byteRcvUndecryptTotal, .pktSent, .pktRecv, .pktSndLoss, .pktRcvLoss, .pktRetrans,
    .pktRcvRetrans, .pktSentACK, .pktRecvACK, .pktSentNAK, .pktRecvNAK, .mbpsSendRate,
    .mbpsRecvRate, .usSndDuration, .pktReorderDistance, .pktRcvAvgBelatedTime, .pktRcvBelated,
    .pktSndDrop, .pktRcvDrop, .pktRcvUndecrypt, .byteSent, .byteRecv, .byteRcvLoss, .byteRetrans,
    .byteSndDrop, .byteRcvDrop, .byteRcvUndecrypt, .usPktSndPeriod, .pktFlowWindow,
    .pktCongestionWindow, .pktFlightSize, .msRTT, .mbpsBandwidth, .byteAvailSndBuf,
    .byteAvailRcvBuf, .mbpsMaxBW, .byteMSS, .pktSndBuf, .byteSndBuf, .msSndBuf, .msSndTsbPdDelay,
    .pktRcvBuf, .byteRcvBuf, .msRcvBuf, .msRcvTsbPdDelay, .pktSndFilterExtraTotal,
    .pktRcvFilterExtraTotal, .pktRcvFilterSupplyTotal, .pktRcvFilterLossTotal, .pktSndFilterExtra,
    .pktRcvFilterExtra, .pktRcvFilterSupply, .pktRcvFilterLoss, .pktReorderTolerance,
    .pktSentUniqueTotal, .pktRecvUniqueTotal, .byteSentUniqueTotal, .byteRecvUniqueTotal,
    .pktSentUnique, .pktRecvUnique, .byteSentUnique, .byteRecvUnique]

/-! ## node-srt.cc -/

inductive Member where
  | integer (n : ℤ)
  | double (x : JSNumber)
  deriving DecidableEq, Repr

def Member.value : Member → JSNumber
  | .integer n => .finite n
  | .double x => x

/-- What `Napi::Number::New` makes of it. -/
def Member.toNumber : Member → JSNumber
  | .integer n => .finite (nearestDouble n)
  | .double x => x

abbrev SRT_TRACEBSTATS := Field → Member

abbrev Object := Field → Option JSNumber

def Object.Set (obj : Object) (name : Field) (x : JSNumber) : Object :=
  Function.update obj name (some x)

/-- The calls of `obj.Set`: the name and the member. -/
def sets : List (Field × Field) :=
  [(.msTimeStamp, .msTimeStamp), (.pktSentTotal, .pktSentTotal), (.pktRecvTotal, .pktRecvTotal),
    (.pktSndLossTotal, .pktSndLossTotal), (.pktRcvLossTotal, .pktRcvLossTotal),
    (.pktRetransTotal, .pktRetransTotal), (.pktSentACKTotal, .pktSentACKTotal),
    (.pktRecvACKTotal, .pktRecvACKTotal), (.pktSentNAKTotal, .pktSentNAKTotal),
    (.pktRecvNAKTotal, .usSndDurationTotal), (.pktSndDropTotal, .pktSndDropTotal),
    (.pktRcvDropTotal, .pktRcvDropTotal), (.pktRcvUndecryptTotal, .pktRcvUndecryptTotal),
    (.byteSentTotal, .byteSentTotal), (.byteRecvTotal, .byteRecvTotal),
    (.byteRcvLossTotal, .byteRcvLossTotal), (.byteRetransTotal, .byteRetransTotal),
    (.byteSndDropTotal, .byteSndDropTotal), (.byteRcvDropTotal, .byteRcvDropTotal),
    (.byteRcvUndecryptTotal, .byteRcvUndecryptTotal), (.pktSent, .pktSent), (.pktRecv, .pktRecv),
    (.pktSndLoss, .pktSndLoss), (.pktRcvLoss, .pktRcvLoss), (.pktRetrans, .pktRetrans),
    (.pktRcvRetrans, .pktRcvRetrans), (.pktSentACK, .pktSentACK), (.pktRecvACK, .pktRecvACK),
    (.pktSentNAK, .pktSentNAK), (.pktRecvNAK, .pktRecvNAK), (.mbpsSendRate, .mbpsSendRate),
    (.mbpsRecvRate, .mbpsRecvRate), (.usSndDuration, .usSndDuration),
    (.pktReorderDistance, .pktReorderDistance), (.pktRcvAvgBelatedTime, .pktRcvAvgBelatedTime),
    (.pktRcvBelated, .pktRcvBelated), (.pktSndDrop, .pktSndDrop), (.pktRcvDrop, .pktRcvDrop),
    (.pktRcvUndecrypt, .pktRcvUndecrypt), (.byteSent, .byteSent), (.byteRecv, .byteRecv),
    (.byteRcvLoss, .byteRcvLoss), (.byteRetrans, .byteRetrans), (.byteSndDrop, .byteSndDrop),
    (.byteRcvDrop, .byteRcvDrop), (.byteRcvUndecrypt, .byteRcvUndecrypt),
    (.usPktSndPeriod, .usPktSndPeriod), (.pktFlowWindow, .pktFlowWindow),
    (.pktCongestionWindow, .pktCongestionWindow), (.pktFlightSize, .pktFlightSize),
    (.msRTT, .msRTT), (.mbpsBandwidth, .mbpsBandwidth), (.byteAvailSndBuf, .byteAvailSndBuf),
    (.byteAvailRcvBuf, .byteAvailRcvBuf), (.mbpsMaxBW, .mbpsMaxBW), (.byteMSS, .byteMSS),
    (.pktSndBuf, .pktSndBuf), (.byteSndBuf, .byteSndBuf), (.msSndBuf, .msSndBuf),
    (.msSndTsbPdDelay, .msSndTsbPdDelay), (.pktRcvBuf, .pktRcvBuf), (.byteRcvBuf, .byteRcvBuf),
    (.msRcvBuf, .msRcvBuf), (.msRcvTsbPdDelay, .msRcvTsbPdDelay),
    (.pktSndFilterExtraTotal, .pktSndFilterExtraTotal),
    (.pktRcvFilterExtraTotal, .pktRcvFilterExtraTotal),
    (.pktRcvFilterSupplyTotal, .pktRcvFilterSupplyTotal),
    (.pktRcvFilterLossTotal, .pktRcvFilterLossTotal), (.pktSndFilterExtra, .pktSndFilterExtra),
    (.pktRcvFilterExtra, .pktRcvFilterExtra), (.pktRcvFilterSupply, .pktRcvFilterSupply),
    (.pktRcvFilterLoss, .pktRcvFilterLoss), (.pktReorderTolerance, .pktReorderTolerance),
    (.pktSentUniqueTotal, .pktSentUniqueTotal), (.pktRecvUniqueTotal, .pktRecvUniqueTotal),
    (.byteSentUniqueTotal, .byteSentUniqueTotal), (.byteRecvUniqueTotal, .byteRecvUniqueTotal),
    (.pktSentUnique, .pktSentUnique), (.pktRecvUnique, .pktRecvUnique),
    (.byteSentUnique, .byteSentUnique), (.byteRecvUnique, .byteRecvUnique)]

def statsObject (stats : SRT_TRACEBSTATS) : Object :=
  sets.foldl (fun obj e => obj.Set e.1 (stats e.2).toNumber) fun _ => none

structure StatsLib (σ : Type*) where
  bstats : σ → ℤ → Bool → σ × ℤ × SRT_TRACEBSTATS
  getlasterrorStr : σ → JSString

variable {σ : Type*}

def StatsLib.stats (lib : StatsLib σ) (n : σ) (socketId : ℤ) (clear : Bool) :
    σ × Except NativeError Object :=
  let r := lib.bstats n socketId clear
  if r.2.1 = SRT_ERROR then (r.1, .error ⟨lib.getlasterrorStr r.1⟩)
  else (r.1, .ok (statsObject r.2.2))

/-! ## What the object holds -/

def source (f : Field) : Field := if f = .pktRecvNAKTotal then .usSndDurationTotal else f

theorem sets_eq : sets = SRTStats.map fun f => (f, source f) := by
  rfl

theorem mem_SRTStats {f : Field} : f ∈ SRTStats ↔ f ≠ .usSndDurationTotal := by
  cases f <;> decide

theorem foldl_set (stats : SRT_TRACEBSTATS) (g : Field → Field) (fs : List Field) (obj : Object)
    (f : Field) :
    (fs.map fun f => (f, g f)).foldl (fun obj e => obj.Set e.1 (stats e.2).toNumber) obj f =
      if f ∈ fs then some (stats (g f)).toNumber else obj f := by
  induction fs generalizing obj with
  | nil => simp
  | cons f' fs ih =>
    rw [List.map_cons, List.foldl_cons, ih]
    by_cases hf : f ∈ fs
    · simp [hf]
    · by_cases he : f = f'
      · subst he
        simp [hf, Object.Set]
      · simp [hf, he, Object.Set]

theorem statsObject_apply (stats : SRT_TRACEBSTATS) (f : Field) :
    statsObject stats f =
      if f = .usSndDurationTotal then none else some (stats (source f)).toNumber := by
  rw [statsObject, sets_eq, foldl_set]
  simp only [mem_SRTStats]
  split_ifs <;> first | rfl | contradiction

/-- Each field of the interface is there, with the value of the member of its name. -/
def Carries (obj : Object) (stats : SRT_TRACEBSTATS) : Prop :=
  ∀ f ∈ SRTStats, obj f = some (stats f).value

/-- When the member `m` becomes `v`, the property of its name changes and no other. -/
def ChangesOnly (stats : SRT_TRACEBSTATS) (m : Field) (v : Member) : Prop :=
  ∀ f, statsObject (Function.update stats m v) f ≠ statsObject stats f ↔ f = m ∧ m ∈ SRTStats

theorem carries_iff (stats : SRT_TRACEBSTATS) :
    Carries (statsObject stats) stats ↔
      (stats .usSndDurationTotal).toNumber = (stats .pktRecvNAKTotal).value ∧
        ∀ f ∈ SRTStats, f ≠ .pktRecvNAKTotal → (stats f).toNumber = (stats f).value := by
  constructor
  · intro h
    refine ⟨?_, fun f hf hne => ?_⟩
    · simpa [statsObject_apply, source] using h .pktRecvNAKTotal (by decide)
    · simpa [statsObject_apply, source, hne, mem_SRTStats.mp hf] using h f hf
  · rintro ⟨hcrossed, hrest⟩ f hf
    rw [statsObject_apply, if_neg (mem_SRTStats.mp hf)]
    by_cases hne : f = .pktRecvNAKTotal
    · subst hne
      exact congrArg some hcrossed
    · rw [source, if_neg hne]
      exact congrArg some (hrest f hf hne)

/-- With all integers below 2^53 only the crossed member is in the way. -/
theorem carries_iff_of_lt {stats : SRT_TRACEBSTATS}
    (h : ∀ f n, stats f = .integer n → n.natAbs < 2 ^ 53) :
    Carries (statsObject stats) stats ↔
      (stats .usSndDurationTotal).value = (stats .pktRecvNAKTotal).value := by
  have hexact : ∀ f, (stats f).toNumber = (stats f).value := by
    intro f
    cases hm : stats f with
    | integer n => rw [Member.toNumber, Member.value, nearestDouble_of_lt (h f n hm)]
    | double x => rfl
  rw [carries_iff, hexact]
  exact and_iff_left fun f _ _ => hexact f

/-- The properties that a change of one member changes. -/
theorem changed_iff (stats : SRT_TRACEBSTATS) (m : Field) (v : Member) (f : Field) :
    statsObject (Function.update stats m v) f ≠ statsObject stats f ↔
      f ≠ .usSndDurationTotal ∧ source f = m ∧ v.toNumber ≠ (stats m).toNumber := by
  rw [statsObject_apply, statsObject_apply]
  by_cases hf : f = .usSndDurationTotal
  · simp [hf]
  · by_cases hm : source f = m
    · subst hm
      simp [hf]
    · simp [hf, hm]

theorem changesOnly_iff (stats : SRT_TRACEBSTATS) (m : Field) (v : Member) :
    ChangesOnly stats m v ↔ m ≠ .pktRecvNAKTotal ∧
      (v.toNumber = (stats m).toNumber ↔ m = .usSndDurationTotal) := by
  simp only [ChangesOnly, changed_iff, mem_SRTStats]
  constructor
  · intro h
    have hself := h m
    have hcrossed := h .pktRecvNAKTotal
    by_cases hm : m = .pktRecvNAKTotal
    · subst hm
      simp [source] at hself
    · by_cases hu : m = .usSndDurationTotal
      · subst hu
        simp only [source] at hcrossed
        simpa using hcrossed
      · simpa [source, hm, hu] using hself
  · rintro ⟨hm, hv⟩ f
    by_cases hu : m = .usSndDurationTotal
    · simp [hv.mpr hu, hu]
    · have hne : v.toNumber ≠ (stats m).toNumber := fun he => hu (hv.mp he)
      by_cases hf : f = .pktRecvNAKTotal
      · subst hf
        simp [source, Ne.symm hu, Ne.symm hm]
      · simp only [source, if_neg hf]
        constructor
        · rintro ⟨-, rfl, -⟩
          exact ⟨rfl, hu⟩
        · rintro ⟨rfl, -⟩
          exact ⟨hu, rfl, hne⟩

/-- The object of a successful call carries the record if and only if the record's
`usSndDurationTotal`, which is read for `pktRecvNAKTotal`, has the value of that member, and the
integers of the other fields are doubles. A change of a member that gives another number changes
the property of its name alone, unless it is one of these two members. -/
theorem stats_faithful_iff (lib : StatsLib σ) (n : σ) (socketId : ℤ) (clear : Bool)
    (h : (lib.bstats n socketId clear).2.1 ≠ SRT_ERROR) :
    let record := (lib.bstats n socketId clear).2.2
    ∃ obj, (lib.stats n socketId clear).2 = .ok obj ∧
      (Carries obj record ↔
        (record .usSndDurationTotal).toNumber = (record .pktRecvNAKTotal).value ∧
          ∀ f ∈ SRTStats, f ≠ .pktRecvNAKTotal → (record f).toNumber = (record f).value) ∧
      ∀ m v, ChangesOnly record m v ↔ m ≠ .pktRecvNAKTotal ∧
        (v.toNumber = (record m).toNumber ↔ m = .usSndDurationTotal) := by
  refine ⟨statsObject (lib.bstats n socketId clear).2.2, ?_, carries_iff _, changesOnly_iff _⟩
  simp [StatsLib.stats, h]

def constantLib (record : SRT_TRACEBSTATS) : StatsLib Unit where
  bstats _ _ _ := ((), 0, record)
  getlasterrorStr _ := []

/-- Three loss reports, and three microseconds of sending. -/
def shortSending : SRT_TRACEBSTATS
  | .pktSentTotal => .integer 70000
  | .mbpsSendRate => .double (.finite (5 / 2))
  | .usSndDurationTotal | .pktRecvNAKTotal => .integer 3
  | _ => .integer 0

theorem stats_faithful_iff_shortSending :
    ∃ obj, ((constantLib shortSending).stats () 1 false).2 = .ok obj ∧
      Carries obj shortSending ∧ ChangesOnly shortSending .pktSentTotal (.integer 70001) ∧
      ¬ ChangesOnly shortSending .pktRecvNAKTotal (.integer 4) := by
  obtain ⟨obj, hok, hcarries, hchanges⟩ :=
    stats_faithful_iff (constantLib shortSending) () 1 false (by decide)
  have hexact : ∀ f, (shortSending f).toNumber = (shortSending f).value := by
    intro f
    unfold shortSending
    split <;> rfl
  refine ⟨obj, hok, hcarries.mpr ⟨by decide, fun f _ _ => hexact f⟩, ?_, ?_⟩
  · exact (hchanges .pktSentTotal (.integer 70001)).mpr ⟨by decide, by decide⟩
  · exact fun h => ((hchanges .pktRecvNAKTotal (.integer 4)).mp h).1 rfl

/-- A second of sending, without a loss report. -/
def secondOfSending : SRT_TRACEBSTATS
  | .usSndDurationTotal => .integer 1000000
  | _ => .integer 0

theorem loss_reports_are_crossed :
    ¬ ∀ (lib : StatsLib Unit) n socketId clear,
      (lib.bstats n socketId clear).2.1 ≠ SRT_ERROR →
      ∃ obj, (lib.stats n socketId clear).2 = .ok obj ∧
        Carries obj (lib.bstats n socketId clear).2.2 ∧
        ∀ m v, v.value ≠ ((lib.bstats n socketId clear).2.2 m).value →
          ChangesOnly (lib.bstats n socketId clear).2.2 m v := by
  intro h
  obtain ⟨obj, hok, hcarries, -⟩ := h (constantLib secondOfSending) () 1 false (by decide)
  have hobj : statsObject secondOfSending = obj := Except.ok.inj hok
  have hvalue := hcarries .pktRecvNAKTotal (by decide)
  rw [← hobj] at hvalue
  exact absurd hvalue (by decide)

end Stats
