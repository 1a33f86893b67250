import IncusCloud.Firecloud.JoinIntents
import IncusCloud.Firecloud.Proofs.SelectableTable
import IncusCloud.Lib.Run

/-!
# What the operator selected

The answers are joined back to the intents by name alone, so what is trusted is what the selected
rows show exactly where, under the name of each selected row, that row's intent was the last to
arrive.
-/

namespace IncusCloud.Firecloud

open Lib List
open Option (isSome_iff_exists some.inj)
open OrdMap (get_set)

variable {Cert : Type} {x509 : Certificates Cert} {range : Finset ℤ → List ℤ} {a b : AskJoin}
  {name : Bytes} {intent : SessionJoinPost}

/-! ### What is selected -/

def lastNamed (received : List SessionJoinPost) (name : Bytes) : Option SessionJoinPost :=
  received.reverse.find? fun intent => intent.name = name

def AskJoin.selected (a : AskJoin) : List SessionJoinPost :=
  ((a.marked.rows.zip a.shown).filter fun e => e.1.selected && !e.1.disabled).map (·.2)

theorem lastNamed_append (received : List SessionJoinPost) (intent : SessionJoinPost) (name : Bytes) :
    lastNamed (received ++ [intent]) name =
      if intent.name = name then some intent else lastNamed received name := by
  unfold lastNamed
  rw [reverse_append, reverse_singleton, singleton_append, List.find?_cons]
  by_cases h : intent.name = name <;> simp [h]

theorem lastNamed_name {received : List SessionJoinPost}
    (h : lastNamed received name = some intent) : intent.name = name ∧ intent ∈ received :=
  ⟨by simpa using List.find?_some h, mem_reverse.mp (mem_of_find?_eq_some h)⟩

theorem lastNamed_isSome {received : List SessionJoinPost} (h : intent ∈ received) :
    (lastNamed received intent.name).isSome = true :=
  List.find?_isSome.mpr ⟨intent, mem_reverse.mpr h, by simp⟩

theorem map_cells_filter {rows : List MarkedRow} {shown : List SessionJoinPost}
    {row : SessionJoinPost → List Bytes}
    (p : MarkedRow → Bool) (h : rows.map (·.cells) = shown.map row) :
    (rows.filter p).map (·.cells) = (((rows.zip shown).filter fun e => p e.1).map (·.2)).map row := by
  induction rows generalizing shown with
  | nil => rfl
  | cons marked rows ih =>
    cases shown with
    | nil => simp at h
    | cons intent shown =>
      obtain ⟨hhead, htail⟩ := List.cons.inj h
      have hrest := ih htail
      by_cases hp : p marked
      · simp_all
      · simp_all

/-! ### While the operator is asked -/

structure AskJoin.Sound (x509 : Certificates Cert) (a : AskJoin) : Prop where
  follows : a.table.Follows a.marked
  header : a.table.header = intentHeader
  err : a.table.err = none
  rows : a.table.rawRows = a.shown.map (intentRow x509)
  intents : ∀ name, a.joinIntents.get name = lastNamed a.received name
  names : (a.joinIntents.map (·.1)).Nodup
  shown : ∀ intent ∈ a.shown, intent ∈ a.received
  pending : ∀ intent ∈ a.pending, intent ∈ a.received
  reads : ∀ intent ∈ a.received, x509.Reads intent

namespace AskJoin

theorem sound_start : start.Sound x509 where
  follows := SelectableTable.follows_init rfl (by simp [SelectableTable.opened, newSelectableTable])
  header := rfl
  err := rfl
  rows := rfl
  intents := fun name => rfl
  names := nodup_nil
  shown := by simp [start]
  pending := by simp [start]
  reads := by simp [start]

theorem Sound.cells (h : a.Sound x509) : a.marked.rows.map (·.cells) = a.shown.map (intentRow x509) := by
  rw [← h.follows.marked, SelectableTable.marked_cells, h.rows]

theorem Sound.send (h : a.Sound x509) {msg : TableMsg} (hclean : a.table.Clean msg)
    (hlisted : SelectableTable.Listed msg) (hb : a.send msg = some b) :
    b.table.Follows b.marked ∧ b.table.header = intentHeader ∧ b.table.err = none ∧
      a.table.update msg = some b.table ∧ b = { a with table := b.table, marked := b.marked } := by
  unfold AskJoin.send at hb
  split_ifs at hb
  obtain ⟨table, hstep, rfl⟩ := Option.map_eq_some_iff.mp hb
  obtain ⟨updated, hupdate⟩ := SelectableTable.update_of_clean hclean
  have htable : table = updated := by
    rw [h.follows.drawn.step_eq hupdate] at hstep
    exact (some.inj hstep).symm
  subst htable
  have hframe := SelectableTable.update_frame hlisted hupdate
  exact ⟨h.follows.update hclean hupdate, hframe.1.trans h.header, hframe.2 h.err, hupdate, rfl⟩

theorem Sound.receive (h : a.Sound x509) (hb : a.receive x509 intent = some b) : b.Sound x509 := by
  unfold AskJoin.receive at hb
  split_ifs at hb with hreads
  obtain rfl := some.inj hb
  have hmem : intent ∈ a.received ++ [intent] := mem_append_right _ mem_cons_self
  refine ⟨h.follows, h.header, h.err, h.rows, ?_, OrdMap.nodup_keys_set h.names _ _, ?_, ?_, ?_⟩
  · intro name
    show OrdMap.get (OrdMap.set a.joinIntents intent.name intent) name =
      lastNamed (a.received ++ [intent]) name
    rw [get_set, lastNamed_append, h.intents name]
    simp only [eq_comm]
  · exact fun intent hshown => mem_append_left _ (h.shown intent hshown)
  · intro sent hsent
    rw [← some.inj hsent]
    exact hmem
  · intro read hread
    rcases mem_append.mp hread with hread | hread
    · exact h.reads read hread
    · rw [mem_singleton.mp hread]
      exact hreads.2

theorem Sound.sendUpdate (h : a.Sound x509) (hb : a.sendUpdate x509 = some b) : b.Sound x509 := by
  obtain ⟨intent, hpending, hb⟩ := Option.bind_eq_some_iff.mp hb
  obtain ⟨c, hc, rfl⟩ := Option.map_eq_some_iff.mp hb
  have hclean : a.table.Clean (.insert (intentRow x509 intent)) := by
    show (intentRow x509 intent).length ≤ a.table.header.length
    rw [h.header]
    rfl
  obtain ⟨hfollows, hheader, herr, hupdate, heq⟩ := h.send hclean (by simp [SelectableTable.Listed]) hc
  rw [heq]
  have hraw : c.table.rawRows = a.table.rawRows ++ [intentRow x509 intent] := by
    rw [← some.inj hupdate]
    rfl
  refine ⟨hfollows, hheader, herr, ?_, h.intents, h.names, ?_, by simp, h.reads⟩
  · show c.table.rawRows = (a.shown ++ [intent]).map (intentRow x509)
    rw [hraw, h.rows, map_append, map_singleton]
  · intro shown hshown
    rcases mem_append.mp hshown with hshown | hshown
    · exact h.shown shown hshown
    · rw [mem_singleton.mp hshown]
      exact h.pending intent hpending

theorem Sound.press (h : a.Sound x509) {key : TableKey} (hb : a.send (.key key) = some b) : b.Sound x509 := by
  have hclean : a.table.Clean (.key key) := trivial
  obtain ⟨hfollows, hheader, herr, hupdate, heq⟩ := h.send hclean (by simp [SelectableTable.Listed]) hb
  have hraw : b.table.rawRows = a.table.rawRows := by
    rw [← some.inj hupdate]
    exact (SelectableTable.key_frame a.table key).2.1
  rw [heq]
  exact ⟨hfollows, hheader, herr, hraw.trans h.rows, h.intents, h.names, h.shown, h.pending, h.reads⟩

theorem Sound.retry (h : a.Sound x509) (hb : a.retry range = some b) : b.Sound x509 := by
  unfold AskJoin.retry at hb
  split_ifs at hb
  obtain rfl := some.inj hb
  exact ⟨SelectableTable.follows_init h.follows.drawn.size h.follows.fits, h.header, h.err, h.rows,
    h.intents, h.names, h.shown, h.pending, h.reads⟩

theorem Sound.step (h : a.Sound x509) {event : AskEvent} (hb : a.step x509 range event = some b) :
    b.Sound x509 := by
  cases event with
  | receive intent => exact h.receive hb
  | sendUpdate => exact h.sendUpdate hb
  | press key => exact h.press hb
  | retry => exact h.retry hb

def Asked (x509 : Certificates Cert) (range : Finset ℤ → List ℤ) (a : AskJoin) : Prop :=
  Run (step x509 range) (fun _ _ => True) start a

theorem Asked.sound (h : Asked x509 range a) : a.Sound x509 :=
  h.invariant sound_start fun _ _ _ hsound _ hstep => hsound.step hstep

/-! ### Joined back by name -/

theorem filter_key {m : OrdMap Bytes SessionJoinPost} (hm : (m.map (·.1)).Nodup)
    (hget : m.get name = some intent) : (m.filter fun e => e.1 = name).map (·.2) = [intent] := by
  induction m with
  | nil => simp at hget
  | cons e m ih =>
    obtain ⟨hhead, htail⟩ := nodup_cons.mp hm
    rw [OrdMap.get_cons] at hget
    by_cases he : e.1 = name
    · have hrest : m.filter (fun e => e.1 = name) = [] := by
        refine filter_eq_nil_iff.mpr fun e' he' heq => hhead ?_
        have hkeys : e'.1 = e.1 := (of_decide_eq_true heq).trans he.symm
        show e.1 ∈ m.map (·.1)
        rw [← hkeys]
        exact mem_map_of_mem he'
      rw [if_pos he] at hget
      rw [filter_cons_of_pos (by simpa using he), hrest, map_singleton, some.inj hget]
    · rw [if_neg he] at hget
      rw [filter_cons_of_neg (by simpa using he)]
      exact ih htail hget

theorem get_name (intent : SessionJoinPost) :
    (OrdMap.ofList (intentHeader.zip (intentRow x509 intent))).get (goString "NAME") = some intent.name := by
  have hnodup : ((intentHeader.zip (intentRow x509 intent)).map (·.1)).Nodup := by
    show intentHeader.Nodup
    decide
  rw [OrdMap.ofList_eq_self hnodup]
  rfl

theorem mem_selected (h : intent ∈ a.selected) : intent ∈ a.shown := by
  obtain ⟨e, he, rfl⟩ := List.mem_map.mp h
  exact (of_mem_zip (mem_of_mem_filter he)).2

theorem Sound.result (h : a.Sound x509) (hrange : SelectableTable.Enumerates range)
    (hfinished : a.table.active = false) :
    ∃ confirmed, a.result range = some confirmed ∧
      confirmed.Perm (a.selected.map fun intent => (lastNamed a.received intent.name).getD intent) := by
  have hheader : a.table.header ≠ [] := by
    rw [h.header]
    exact cons_ne_nil _ _
  obtain ⟨answers, hanswers, hperm⟩ := h.follows.answer hrange h.err hheader
  refine ⟨a.systems answers, ?_, ?_⟩
  · unfold AskJoin.result
    rw [hfinished, hanswers]
    rfl
  · refine (hperm.flatMap_right _).trans (.of_eq ?_)
    have hchosen : a.marked.chosen = a.selected.map (intentRow x509) := map_cells_filter _ h.cells
    rw [hchosen, h.header, map_map, flatMap_map]
    refine (flatMap_congr fun intent hintent => ?_).trans (flatMap_pure_eq_map _ _)
    obtain ⟨last, hlast⟩ := isSome_iff_exists.mp (lastNamed_isSome (h.shown intent (mem_selected hintent)))
    have hget : a.joinIntents.get intent.name = some last := (h.intents intent.name).trans hlast
    have hname : ((OrdMap.ofList (intentHeader.zip (intentRow x509 intent))).get (goString "NAME")).getD [] =
        intent.name := by
      rw [get_name]
      rfl
    show ((a.joinIntents.filter fun e => e.1 = ((OrdMap.ofList (intentHeader.zip (intentRow x509 intent))).get
      (goString "NAME")).getD []).map (·.2)) = [(lastNamed a.received intent.name).getD intent]
    rw [hname, filter_key h.names hget, hlast]
    rfl

end AskJoin

/-! ### What is trusted -/

/-- What was confirmed, allowed and registered is what the selected rows show: the intents, and
under their names their certificates and systems, of which no other is allowed and no other is
touched. -/
structure Trusted (x509 : Certificates Cert) (confirm : SessionJoinPost → Except String Unit)
    (selected confirmed : List SessionJoinPost) : Prop where
  intents : confirmed.Perm selected
  allowed : ∀ name cert, (allowIntents x509 confirm [] confirmed).1.get name = some cert →
    ∃ intent ∈ selected, intent.name = name ∧ x509.parse intent.certificate = some cert
  all : (allowIntents x509 confirm [] confirmed).2 = none → ∀ intent ∈ selected,
    (allowIntents x509 confirm [] confirmed).1.get intent.name = x509.parse intent.certificate
  registered : ∀ systems, ∃ systems', registerSystems x509 systems confirmed = .ok systems' ∧
    (∀ intent ∈ selected, systems'.get intent.name = serverInfo x509 intent) ∧
    ∀ name, (∀ intent ∈ selected, intent.name ≠ name) → systems'.get name = systems.get name

def OneOfName (confirmed : List SessionJoinPost) : Prop :=
  ∀ intent ∈ confirmed, ∀ other ∈ confirmed, intent.name = other.name → intent = other

variable {confirm : SessionJoinPost → Except String Unit} {confirmed : List SessionJoinPost}

theorem allowIntents_cons (store : OrdMap Bytes Cert) {cert : Cert}
    (hcert : x509.parse intent.certificate = some cert) :
    allowIntents x509 confirm store (intent :: confirmed) =
      match confirm intent with
      | .error err => (store.set intent.name cert, some err)
      | .ok () => allowIntents x509 confirm (store.set intent.name cert) confirmed := by
  cases hconfirm : confirm intent with
  | error err => simp [allowIntents, hcert, hconfirm]
  | ok _ => simp [allowIntents, hcert, hconfirm]

theorem allowed_of_get (store : OrdMap Bytes Cert) {cert : Cert}
    (h : (allowIntents x509 confirm store confirmed).1.get name = some cert) :
    store.get name = some cert ∨
      ∃ intent ∈ confirmed, intent.name = name ∧ x509.parse intent.certificate = some cert := by
  induction confirmed generalizing store with
  | nil => exact .inl h
  | cons intent confirmed ih =>
    have hset : ∀ certificate, x509.parse intent.certificate = some certificate →
        (store.set intent.name certificate).get name = some cert →
        store.get name = some cert ∨
          ∃ other ∈ intent :: confirmed, other.name = name ∧ x509.parse other.certificate = some cert := by
      intro certificate hcertificate hget
      rw [get_set] at hget
      split_ifs at hget with hname
      · refine .inr ⟨intent, mem_cons_self, hname.symm, ?_⟩
        rw [hcertificate, some.inj hget]
      · exact .inl hget
    rcases hcert : x509.parse intent.certificate with _ | certificate
    · rw [allowIntents, hcert] at h
      exact .inl h
    · rw [allowIntents_cons store hcert] at h
      rcases hconfirm : confirm intent with err | ⟨⟩
      · rw [hconfirm] at h
        exact hset certificate hcert h
      · rw [hconfirm] at h
        rcases ih _ h with hget | ⟨other, hother, hname, hparse⟩
        · exact hset certificate hcert hget
        · exact .inr ⟨other, mem_cons_of_mem _ hother, hname, hparse⟩

theorem allowIntents_other (store : OrdMap Bytes Cert) (hname : ∀ intent ∈ confirmed, intent.name ≠ name)
    (herr : (allowIntents x509 confirm store confirmed).2 = none) :
    (allowIntents x509 confirm store confirmed).1.get name = store.get name := by
  induction confirmed generalizing store with
  | nil => rfl
  | cons intent confirmed ih =>
    rcases hcert : x509.parse intent.certificate with _ | certificate
    · rw [allowIntents, hcert] at herr
      cases herr
    · rw [allowIntents_cons store hcert] at herr ⊢
      rcases hconfirm : confirm intent with err | ⟨⟩
      · rw [hconfirm] at herr
        cases herr
      · rw [hconfirm] at herr
        show (allowIntents x509 confirm (store.set intent.name certificate) confirmed).1.get name =
          store.get name
        rw [ih _ (fun other hother => hname other (mem_cons_of_mem _ hother)) herr, get_set,
          if_neg (hname intent mem_cons_self).symm]

theorem allowIntents_all (hone : OneOfName confirmed) (store : OrdMap Bytes Cert)
    (herr : (allowIntents x509 confirm store confirmed).2 = none)
    (hintent : intent ∈ confirmed) :
    (allowIntents x509 confirm store confirmed).1.get intent.name = x509.parse intent.certificate := by
  induction confirmed generalizing store with
  | nil => cases hintent
  | cons first confirmed ih =>
    have hrest : OneOfName confirmed := fun i hi j hj =>
      hone i (mem_cons_of_mem _ hi) j (mem_cons_of_mem _ hj)
    rcases hcert : x509.parse first.certificate with _ | certificate
    · rw [allowIntents, hcert] at herr
      cases herr
    · rw [allowIntents_cons store hcert] at herr ⊢
      rcases hconfirm : confirm first with err | ⟨⟩
      · rw [hconfirm] at herr
        cases herr
      · rw [hconfirm] at herr
        show (allowIntents x509 confirm (store.set first.name certificate) confirmed).1.get intent.name = _
        by_cases hlater : ∃ later ∈ confirmed, later.name = intent.name
        · obtain ⟨later, hmem, hname⟩ := hlater
          have heq := hone later (mem_cons_of_mem _ hmem) intent hintent hname
          exact ih hrest _ herr (heq ▸ hmem)
        · have hnone : ∀ later ∈ confirmed, later.name ≠ intent.name :=
            fun later hmem hname => hlater ⟨later, hmem, hname⟩
          have hfirst : intent = first := by
            rcases mem_cons.mp hintent with hfirst | hmem
            · exact hfirst
            · exact absurd rfl (hnone intent hmem)
          rw [allowIntents_other _ hnone herr, hfirst, get_set, if_pos rfl, hcert]

theorem registerSystems_ok (hone : OneOfName confirmed)
    (hreads : ∀ intent ∈ confirmed, x509.Reads intent) (systems : OrdMap Bytes (ServerInfo Cert)) :
    ∃ systems', registerSystems x509 systems confirmed = .ok systems' ∧
      (∀ intent ∈ confirmed, systems'.get intent.name = serverInfo x509 intent) ∧
      ∀ name, (∀ intent ∈ confirmed, intent.name ≠ name) → systems'.get name = systems.get name := by
  induction confirmed generalizing systems with
  | nil => exact ⟨systems, rfl, by simp, fun _ _ => rfl⟩
  | cons first confirmed ih =>
    have hrest : OneOfName confirmed := fun i hi j hj =>
      hone i (mem_cons_of_mem _ hi) j (mem_cons_of_mem _ hj)
    obtain ⟨cert, hcert⟩ := isSome_iff_exists.mp (hreads first mem_cons_self)
    have hinfo : ∃ info, serverInfo x509 first = some info := by simp [serverInfo, hcert]
    obtain ⟨info, hinfo⟩ := hinfo
    obtain ⟨systems', hsystems', hall, hother⟩ :=
      ih hrest (fun intent hintent => hreads intent (mem_cons_of_mem _ hintent)) (systems.set first.name info)
    refine ⟨systems', ?_, ?_, ?_⟩
    · rw [registerSystems, hinfo]
      exact hsystems'
    · intro intent hintent
      by_cases hlater : ∃ later ∈ confirmed, later.name = intent.name
      · obtain ⟨later, hmem, hname⟩ := hlater
        have heq := hone later (mem_cons_of_mem _ hmem) intent hintent hname
        exact hall intent (heq ▸ hmem)
      · have hnone : ∀ later ∈ confirmed, later.name ≠ intent.name :=
          fun later hmem hname => hlater ⟨later, hmem, hname⟩
        have hfirst : intent = first := by
          rcases mem_cons.mp hintent with hfirst | hmem
          · exact hfirst
          · exact absurd rfl (hnone intent hmem)
        rw [hother _ hnone, hfirst, get_set, if_pos rfl, hinfo]
    · intro name hname
      rw [hother name fun intent hintent => hname intent (mem_cons_of_mem _ hintent), get_set,
        if_neg (hname first mem_cons_self).symm]

/-- What the operator selected is what is trusted exactly where, under the name of each selected
row, that row's intent was the last to arrive. -/
theorem selected_is_trusted (hrange : SelectableTable.Enumerates range)
    (hasked : AskJoin.Asked x509 range a) (hfinished : a.table.active = false) :
    ∃ confirmed, a.result range = some confirmed ∧
      (Trusted x509 confirm a.selected confirmed ↔
        ∀ intent ∈ a.selected, lastNamed a.received intent.name = some intent) := by
  have hsound := hasked.sound
  obtain ⟨confirmed, hresult, hperm⟩ := hsound.result hrange hfinished
  refine ⟨confirmed, hresult, ?_, ?_⟩
  · intro htrusted intent hintent
    -- A selected intent was joined back from some selected row of its name.
    have hmem := (hperm.mem_iff.mp (htrusted.intents.mem_iff.mpr hintent))
    obtain ⟨row, hrow, heq⟩ := List.mem_map.mp hmem
    have hreceived := hsound.shown row (AskJoin.mem_selected hrow)
    obtain ⟨last, hlast⟩ := isSome_iff_exists.mp (lastNamed_isSome hreceived)
    rw [hlast, Option.getD_some] at heq
    have hname := (lastNamed_name hlast).1
    rw [heq] at hname
    rw [hname, hlast, heq]
  · intro hlast
    have hsame : a.selected.map (fun intent => (lastNamed a.received intent.name).getD intent) =
      a.selected := by
      refine (map_congr_left fun intent hintent => ?_).trans (map_id _)
      rw [hlast intent hintent]
      rfl
    rw [hsame] at hperm
    have hone : OneOfName confirmed := by
      intro intent hintent other hother hname
      have hlastIntent := hlast intent (hperm.mem_iff.mp hintent)
      have hlastOther := hlast other (hperm.mem_iff.mp hother)
      rw [hname, hlastOther] at hlastIntent
      exact (some.inj hlastIntent).symm
    have hreads : ∀ intent ∈ confirmed, x509.Reads intent := fun intent hintent =>
      hsound.reads intent (hsound.shown intent (AskJoin.mem_selected (hperm.mem_iff.mp hintent)))
    refine ⟨hperm, ?_, ?_, ?_⟩
    · intro name cert hget
      rcases allowed_of_get [] hget with hnone | ⟨intent, hintent, hname, hparse⟩
      · cases hnone
      · exact ⟨intent, hperm.mem_iff.mp hintent, hname, hparse⟩
    · exact fun herr intent hintent => allowIntents_all hone [] herr (hperm.mem_iff.mpr hintent)
    · intro systems
      obtain ⟨systems', hsystems', hall, hother⟩ := registerSystems_ok hone hreads systems
      exact ⟨systems', hsystems', fun intent hintent => hall intent (hperm.mem_iff.mpr hintent),
        fun name hname => hother name fun intent hintent => hname intent (hperm.mem_iff.mp hintent)⟩

/-! ### Two intents -/

def plainCertificates : Certificates Bytes where
  parse := fun certificate => if certificate = [] then none else some certificate
  fingerprint := id

def plainIntent (name certificate : UInt8) : SessionJoinPost :=
  ⟨[name], [], [certificate], List.replicate 12 certificate, []⟩

/-- Both intents arrive and are shown, and the first row is selected. -/
def selectFirst (first second : SessionJoinPost) : List AskEvent :=
  [.receive first, .sendUpdate, .receive second, .sendUpdate, .press .space, .press .enter]

/-- The two have different names. -/
theorem first_is_trusted :
    ∃ a, AskJoin.Asked plainCertificates SelectableTable.ascending a ∧ a.selected = [plainIntent 1 1] ∧
      ∃ confirmed, a.result SelectableTable.ascending = some confirmed ∧
        Trusted plainCertificates (fun _ => .ok ()) a.selected confirmed := by
  have hrun : ∃ a, AskJoin.Asked plainCertificates SelectableTable.ascending a ∧
      (a.table.active = false ∧ a.selected = [plainIntent 1 1] ∧
        a.received = [plainIntent 1 1, plainIntent 2 2]) :=
    Run.exists_of_exec (selectFirst (plainIntent 1 1) (plainIntent 2 2)) (by decide)
  obtain ⟨a, hasked, hfinished, hselected, hreceived⟩ := hrun
  obtain ⟨confirmed, hresult, htrusted⟩ : ∃ confirmed, a.result SelectableTable.ascending = some confirmed ∧
      (Trusted plainCertificates (fun _ => .ok ()) a.selected confirmed ↔ _) :=
    selected_is_trusted SelectableTable.enumerates_ascending hasked hfinished
  refine ⟨a, hasked, hselected, confirmed, hresult, htrusted.mpr ?_⟩
  rw [hselected, hreceived]
  decide

/-- Another machine takes the name: the first row is selected, and the second intent is confirmed. -/
theorem second_is_confirmed :
    ∃ a, AskJoin.Asked plainCertificates SelectableTable.ascending a ∧
      (a.table.active = false ∧ a.selected = [plainIntent 1 1] ∧
        a.result SelectableTable.ascending = some [plainIntent 1 2]) :=
  Run.exists_of_exec (selectFirst (plainIntent 1 1) (plainIntent 1 2)) (by decide +kernel)

end IncusCloud.Firecloud
