import IncusCloud.Forms.Devices

/-!
# What an edit of a proxy address keeps

`ProxyAddress` is a listen or connect value as Incus takes it, and `readAddress` how Incus takes one
apart: at its first colon, and for `tcp` and `udp` at its last. The form takes it apart at every
colon and keeps three pieces. So an edit keeps the other parts where no colon stands inside them
(`changesOnly_iff` has the exact condition): what a bracketed IPv6 address or a socket path holds
after its first colon is lost.
-/

namespace IncusCloud.Forms

open Lib List Option

variable {port : String} {change : AddressChange}

/-! ### Pieces of a text -/

theorem split_append (a b : String) : split ':' (a ++ ":" ++ b) = split ':' a ++ split ':' b := by
  have hlist : (a ++ ":" ++ b).toList = a.toList ++ ':' :: b.toList := by simp
  rw [split, hlist, splitOn_append_cons_self, map_append]
  rfl

theorem split_plain {s : String} (h : ':' ∉ s.toList) : split ':' s = [s] := by
  rw [split, splitOn_eq_singleton h]
  simp

theorem mem_split_plain {s x : String} (h : x ∈ split ':' s) : ':' ∉ x.toList := by
  obtain ⟨l, hl, rfl⟩ := List.mem_map.mp h
  rw [String.toList_ofList]
  exact (mem_splitOn hl).1

theorem split_cases (s : String) :
    (':' ∉ s.toList ∧ split ':' s = [s]) ∨
      ∃ x y rest, ':' ∈ s.toList ∧ split ':' s = x :: y :: rest ∧ ':' ∉ x.toList ∧ ':' ∉ y.toList ∧
        x ≠ s := by
  by_cases hs : ':' ∈ s.toList
  · right
    obtain ⟨l, r, heq, hl⟩ := eq_append_cons_of_mem hs
    have hsplit : split ':' s = String.ofList l :: split ':' (String.ofList r) := by
      rw [split, heq, splitOn_append_cons_self_of_not_mem hl, split, String.toList_ofList]
      rfl
    cases hr : split ':' (String.ofList r) with
    | nil => simp [split] at hr
    | cons y rest =>
      rw [hr] at hsplit
      refine ⟨String.ofList l, y, rest, hs, hsplit, mem_split_plain (s := s) ?_,
        mem_split_plain (s := s) ?_, ?_⟩
      · rw [hsplit]
        exact mem_cons_self
      · rw [hsplit]
        simp
      · intro hall
        rw [← hall, String.toList_ofList] at hs
        exact hl hs
  · exact .inl ⟨hs, split_plain hs⟩

/-! ### Addresses as Incus takes them -/

inductive NetType
  | tcp
  | udp

def NetType.name : NetType → String
  | .tcp => "tcp"
  | .udp => "udp"

theorem NetType.name_plain (type : NetType) : ':' ∉ type.name.toList := by
  cases type <;> decide

theorem NetType.name_ne (type : NetType) : type.name ≠ "unix" := by
  cases type <;> decide

structure AddressParts where
  type : String
  address : String
  port : String
deriving DecidableEq

/-- A listen or connect value. Before the ports may stand an IPv4 address, a name or an IPv6
address in brackets, and here any text. -/
inductive ProxyAddress
  | net (type : NetType) (address port : String) (h : port ≠ "" ∧ ':' ∉ port.toList)
  | unix (path : String)

namespace ProxyAddress

def text : ProxyAddress → String
  | .net type address port _ => type.name ++ ":" ++ address ++ ":" ++ port
  | .unix path => "unix" ++ ":" ++ path

def parts : ProxyAddress → AddressParts
  | .net type address port _ => ⟨type.name, address, port⟩
  | .unix path => ⟨"unix", path, ""⟩

end ProxyAddress

/-- The type ends at the first colon; then a socket has a path, and else the ports begin at the last
colon. -/
def readAddress (s : String) : AddressParts :=
  let pieces := split ':' s
  let type := pieces.headD ""
  if type = "unix" then ⟨type, join ':' pieces.tail, ""⟩
  else ⟨type, join ':' pieces.tail.dropLast, pieces.tail.getLastD ""⟩

theorem split_net {type : String} (htype : ':' ∉ type.toList) (hport : ':' ∉ port.toList)
    (address : String) :
    split ':' (type ++ ":" ++ address ++ ":" ++ port) = type :: (split ':' address ++ [port]) := by
  rw [split_append, split_append, split_plain htype, split_plain hport]
  rfl

theorem split_unix (path : String) : split ':' ("unix" ++ ":" ++ path) =
    "unix" :: split ':' path := by
  rw [split_append, split_plain (by decide)]
  rfl

theorem readAddress_net {type : String} (htype : ':' ∉ type.toList) (hunix : type ≠ "unix")
    (hport : ':' ∉ port.toList) (address : String) :
    readAddress (type ++ ":" ++ address ++ ":" ++ port) = ⟨type, address, port⟩ := by
  simp only [readAddress, split_net htype hport, headD_cons, tail_cons, if_neg hunix,
    dropLast_concat, join_split]
  simp

theorem readAddress_unix (path : String) : readAddress ("unix" ++ ":" ++ path) =
    ⟨"unix", path, ""⟩ := by
  simp only [readAddress, split_unix, headD_cons, tail_cons, if_true, join_split]

theorem readAddress_socket (address port : String) :
    readAddress ("unix" ++ ":" ++ address ++ ":" ++ port) =
      ⟨"unix", address ++ ":" ++ port, ""⟩ := by
  have hassoc : "unix" ++ ":" ++ address ++ ":" ++ port =
    "unix" ++ ":" ++ (address ++ ":" ++ port) := by
    simp only [String.append_assoc]
  rw [hassoc, readAddress_unix]

theorem readAddress_text (v : ProxyAddress) : readAddress v.text = v.parts := by
  cases v with
  | net type address port h => exact readAddress_net type.name_plain type.name_ne h.2 address
  | unix path => exact readAddress_unix path

theorem readAddress_port_plain (s : String) : ':' ∉ (readAddress s).port.toList := by
  unfold readAddress
  dsimp only
  split
  · simp
  · cases hlast : (split ':' s).tail.getLast? with
    | none =>
      rw [List.getLast?_eq_none_iff] at hlast
      simp [hlast]
    | some x =>
      have hmem : x ∈ split ':' s := mem_of_mem_tail (mem_of_getLast? hlast)
      simpa [getLastD_eq_getLast?, hlast] using mem_split_plain hmem

/-! ### What a change keeps -/

def AddressChange.set : AddressChange → AddressParts → AddressParts
  | .type newType, p => { p with type := newType }
  | .socketPath newAddress, p | .address newAddress, p => { p with address := newAddress }
  | .port newPort, p => { p with port := newPort }

def AddressChange.Fits : AddressChange → ProxyAddress → Prop
  | .type newType, _ => newType ∈ proxyAddressTypeOptions
  | .socketPath _, .unix _ | .address _, .net .. | .port _, .net .. => True
  | _, _ => False

/-- The text a handler writes, from the pieces of the value it replaces. -/
def AddressChange.rewrite (change : AddressChange) (pieces : List String) : String :=
  match change with
  | .type newType => newType ++ ":" ++ (pieces[1]?).getD "" ++ ":" ++ (pieces[2]?).getD ""
  | .socketPath newPath => "unix:" ++ newPath
  | .address newAddress =>
    (pieces[0]?).getD "tcp" ++ ":" ++ newAddress ++ ":" ++ (pieces[2]?).getD ""
  | .port newPort => (pieces[0]?).getD "tcp" ++ ":" ++ (pieces[1]?).getD "" ++ ":" ++ newPort

/-- Where a change keeps the other parts. A change to `unix` writes the address and the ports as
the path. -/
def Retains : AddressChange → ProxyAddress → Prop
  | .type newType, .net _ address _ _ => newType ≠ "unix" ∧ ':' ∉ address.toList
  | .type newType, .unix path => if newType = "unix" then (split ':' path).length =
    2 else ':' ∉ path.toList
  | .address _, .net _ address port _ => ':' ∉ address.toList ∨ (split ':' address)[1]? = some port
  | .port newPort, .net _ address _ _ => ':' ∉ address.toList ∧ ':' ∉ newPort.toList
  | _, _ => True

theorem option_plain {newType : String} (h : newType ∈ proxyAddressTypeOptions) :
    ':' ∉ newType.toList := by
  simp only [proxyAddressTypeOptions, mem_cons, not_mem_nil, or_false] at h
  rcases h with rfl | rfl | rfl <;> decide

theorem net_pieces (type : NetType) (address : String) (h : ':' ∉ port.toList) :
    (':' ∉ address.toList ∧
        split ':' (type.name ++ ":" ++ address ++ ":" ++ port) = [type.name, address, port]) ∨
      ∃ x y rest, ':' ∈ address.toList ∧ split ':' address = x :: y :: rest ∧ x ≠ address ∧
        ':' ∉ y.toList ∧
        split ':' (type.name ++ ":" ++ address ++ ":" ++ port) =
          type.name :: x :: y :: (rest ++ [port]) := by
  rw [split_net type.name_plain h]
  rcases split_cases address with ⟨hplain, hsplit⟩ | ⟨x, y, rest, hcolon, hsplit, -, hy, hne⟩
  · exact .inl ⟨hplain, by rw [hsplit]; rfl⟩
  · exact .inr ⟨x, y, rest, hcolon, hsplit, hne, hy, by rw [hsplit]; rfl⟩

theorem rewrite_net_iff (type : NetType) (address port : String) (h : port ≠ "" ∧ ':' ∉ port.toList)
    (hfits : change.Fits (.net type address port h)) :
    readAddress (change.rewrite (split ':' (ProxyAddress.net type address port h).text)) =
        change.set ⟨type.name, address, port⟩ ↔ Retains change (.net type address port h) := by
  show readAddress (change.rewrite (split ':' (type.name ++ ":" ++ address ++ ":" ++ port))) = _ ↔ _
  cases change with
  | socketPath newPath => cases hfits
  | type newType =>
    have hplain := option_plain hfits
    rcases eq_or_ne newType "unix" with rfl | hunix
    · -- the ports stand in the path
      have hport : "" ≠ port := h.1.symm
      show readAddress ("unix" ++ ":" ++ _ ++ ":" ++ _) = ⟨"unix", address, port⟩ ↔ _
      rw [readAddress_socket]
      simp [Retains, hport]
    rcases net_pieces type address h.2 with ⟨haddr, hpieces⟩ | ⟨x, y, rest, hcolon, -, hne, hy,
      hpieces⟩
    · rw [hpieces]
      show readAddress (newType ++ ":" ++ address ++ ":" ++ port) = ⟨newType, address, port⟩ ↔ _
      rw [readAddress_net hplain hunix h.2]
      simp [Retains, hunix, haddr]
    · rw [hpieces]
      show readAddress (newType ++ ":" ++ x ++ ":" ++ y) = ⟨newType, address, port⟩ ↔ _
      rw [readAddress_net hplain hunix hy]
      simp [Retains, hcolon, hne]
  | address newAddress =>
    rcases net_pieces type address h.2 with ⟨haddr, hpieces⟩ | ⟨x, y, rest, hcolon, hsplit, hne, hy,
      hpieces⟩
    · rw [hpieces]
      show readAddress (type.name ++ ":" ++ newAddress ++ ":" ++ port) =
        ⟨type.name, newAddress, port⟩ ↔ _
      rw [readAddress_net type.name_plain type.name_ne h.2]
      simp [Retains, haddr]
    · rw [hpieces]
      show readAddress (type.name ++ ":" ++ newAddress ++ ":" ++ y) =
        ⟨type.name, newAddress, port⟩ ↔ _
      rw [readAddress_net type.name_plain type.name_ne hy]
      simp [Retains, hcolon, hsplit]
  | port newPort =>
    by_cases hport : ':' ∈ newPort.toList
    · have hread : ∀ s, readAddress s ≠ ⟨type.name, address, newPort⟩ := by
        intro s hs
        apply readAddress_port_plain s
        rw [hs]
        exact hport
      simp [Retains, hport, AddressChange.set, hread]
    rcases net_pieces type address h.2 with ⟨haddr, hpieces⟩ | ⟨x, y, rest, hcolon, -, hne, -,
      hpieces⟩
    · rw [hpieces]
      show readAddress (type.name ++ ":" ++ address ++ ":" ++ newPort) =
        ⟨type.name, address, newPort⟩ ↔ _
      rw [readAddress_net type.name_plain type.name_ne hport]
      simp [Retains, haddr, hport]
    · rw [hpieces]
      show readAddress (type.name ++ ":" ++ x ++ ":" ++ newPort) = ⟨type.name, address, newPort⟩ ↔ _
      rw [readAddress_net type.name_plain type.name_ne hport]
      simp [Retains, hcolon, hne]

theorem rewrite_unix_iff (path : String) (hfits : change.Fits (.unix path)) :
    readAddress (change.rewrite (split ':' (ProxyAddress.unix path).text)) =
      change.set ⟨"unix", path, ""⟩ ↔
      Retains change (.unix path) := by
  show readAddress (change.rewrite (split ':' ("unix" ++ ":" ++ path))) = _ ↔ _
  cases change with
  | address newAddress => cases hfits
  | port newPort => cases hfits
  | socketPath newPath =>
    have hread : readAddress ("unix:" ++ newPath) = ⟨"unix", newPath, ""⟩ :=
      readAddress_unix newPath
    simp [AddressChange.rewrite, AddressChange.set, Retains, hread]
  | type newType =>
    have hplain := option_plain hfits
    rw [split_unix]
    rcases split_cases path with ⟨hpath, hsplit⟩ | ⟨x, y, rest, hcolon, hsplit, hx, hy, hne⟩
    · rw [hsplit]
      show readAddress (newType ++ ":" ++ path ++ ":" ++ "") = ⟨newType, path, ""⟩ ↔ _
      rcases eq_or_ne newType "unix" with rfl | hunix
      · -- a colon more
        rw [readAddress_socket]
        simp [Retains, hsplit]
      · rw [readAddress_net hplain hunix (by simp)]
        simp [Retains, hunix, hpath]
    · rw [hsplit]
      show readAddress (newType ++ ":" ++ x ++ ":" ++ y) = ⟨newType, path, ""⟩ ↔ _
      rcases eq_or_ne newType "unix" with rfl | hunix
      · rw [readAddress_socket]
        have hpieces : split ':' (x ++ ":" ++ y) = [x, y] := by
          rw [split_append, split_plain hx, split_plain hy]
          rfl
        have hjoin : x ++ ":" ++ y = path ↔ rest = [] := by
          constructor
          · intro heq
            rw [heq, hsplit] at hpieces
            simpa using hpieces
          · rintro rfl
            rw [← join_split ':' path, hsplit, ← hpieces, join_split]
        simp [Retains, hsplit, hjoin]
      · rw [readAddress_net hplain hunix hy]
        simp [Retains, hunix, hcolon, hne]

theorem rewrite_iff (v : ProxyAddress) (hfits : change.Fits v) :
    readAddress (change.rewrite (split ':' v.text)) = change.set v.parts ↔ Retains change v := by
  cases v with
  | net type address port h => exact rewrite_net_iff type address port h hfits
  | unix path => exact rewrite_unix_iff path hfits

/-! ### What a handler writes -/

theorem value_setValue (device : LxdProxyDevice) (connectionType c : ConnectionType) (s : String) :
    (device.setValue connectionType s).value c =
      if c = connectionType then some s else device.value c := by
  cases connectionType <;> cases c <;> rfl

theorem devices_setFieldValue (form : ProxyForm) (index : ℕ) (connectionType : ConnectionType)
    (s : String)
    (i : ℕ) : (form.setFieldValue index connectionType s).devices[i]? =
      (form.devices[i]?).map fun device =>
        if index = i then device.setValue connectionType s else device := by
  show (form.devices.modify index _)[i]? = _
  rw [List.getElem?_modify]
  cases form.devices[i]? with
  | none => rfl
  | some device => split <;> rfl

def Edits (device : LxdProxyDevice) (connectionType : ConnectionType) (change : AddressChange)
    (c : ConnectionType) : Prop :=
  c = connectionType ∨ (c = .connect ∧ device.nat = some "true" ∧ ∃ newType, change = .type newType)

def ChangesOnly (before after : LxdProxyDevice) (connectionType : ConnectionType)
    (change : AddressChange) : Prop :=
  ∀ (c : ConnectionType) (v : ProxyAddress), before.value c = some v.text →
    (Edits before connectionType change c → (after.value c).map readAddress =
      some (change.set v.parts)) ∧
      (¬ Edits before connectionType change c → after.value c = before.value c)

theorem value_onChange (form : ProxyForm) {index : ℕ} {device : LxdProxyDevice}
    (hdevice : form.devices[index]? = some device) (connectionType : ConnectionType)
    (change : AddressChange) :
    ∃ after, (form.onChange device index connectionType change).devices[index]? = some after ∧
      ∀ c, (Edits device connectionType change c →
        after.value c = some (change.rewrite (device.parts c))) ∧
        (¬ Edits device connectionType change c → after.value c = device.value c) := by
  have hone : ∀ s : String,
    (form.ensureEditMode.setFieldValue index connectionType s).devices[index]? =
      some (device.setValue connectionType s) := by
    intro s
    have hform : form.ensureEditMode.devices[index]? = some device := hdevice
    rw [devices_setFieldValue, hform]
    simp
  -- without nat only the value itself is written
  have hsingle : (∀ c, Edits device connectionType change c ↔ c = connectionType) →
      form.onChange device index connectionType change =
        form.ensureEditMode.setFieldValue index connectionType
          (change.rewrite (device.parts connectionType)) →
      ∃ after, (form.onChange device index connectionType change).devices[index]? = some after ∧
        ∀ c, (Edits device connectionType change c →
          after.value c = some (change.rewrite (device.parts c))) ∧
          (¬ Edits device connectionType change c → after.value c = device.value c) := by
    intro hedits hwrite
    refine ⟨_, by rw [hwrite, hone], fun c => ⟨fun hc => ?_, fun hc => ?_⟩⟩
    · rw [hedits] at hc
      rw [value_setValue, if_pos hc, hc]
    · rw [hedits] at hc
      rw [value_setValue, if_neg hc]
  cases change with
  | socketPath newPath => exact hsingle (fun c => by simp [Edits]) rfl
  | address newAddress => exact hsingle (fun c => by simp [Edits]) rfl
  | port newPort => exact hsingle (fun c => by simp [Edits]) rfl
  | type newType =>
    by_cases hnat : device.nat = some "true"
    · have hwrite : form.onChange device index connectionType (.type newType) =
          (form.ensureEditMode.setFieldValue index connectionType
            ((AddressChange.type newType).rewrite (device.parts connectionType))).setFieldValue
              index .connect
            ((AddressChange.type newType).rewrite (device.parts .connect)) := if_pos hnat
      refine ⟨_, by rw [hwrite, devices_setFieldValue, hone, map_some, if_pos rfl], fun c =>
        ⟨?_, ?_⟩⟩
      · rintro (rfl | ⟨rfl, -⟩)
        · rw [value_setValue]
          split
          · next hc => rw [hc]
          · rw [value_setValue, if_pos rfl]
        · rw [value_setValue, if_pos rfl]
      · intro hc
        rw [Edits, not_or] at hc
        have hne : c ≠ .connect := fun h => hc.2 ⟨h, hnat, newType, rfl⟩
        rw [value_setValue, if_neg hne, value_setValue, if_neg hc.1]
    · exact hsingle (fun c => by simp [Edits, hnat]) (if_neg hnat)

theorem fits_of_canChange {form : ProxyForm} {device : LxdProxyDevice}
    {connectionType c : ConnectionType}
    (hcan : form.canChange device connectionType change = true)
    (hedits : Edits device connectionType change c) {v : ProxyAddress}
    (hv : device.value c = some v.text) :
    change.Fits v := by
  simp only [ProxyForm.canChange, Bool.and_eq_true] at hcan
  rcases hedits with rfl | ⟨-, -, newType, rfl⟩
  · have hparts : device.parts c = split ':' v.text := by rw [LxdProxyDevice.parts, hv]; rfl
    have htype : ((device.parts c)[0]?).getD "tcp" = v.parts.type := by
      rw [hparts]
      cases v with
      | net type address port h => rw [ProxyAddress.text, split_net type.name_plain h.2]; rfl
      | unix path => rw [ProxyAddress.text, split_unix]; rfl
    obtain ⟨-, hcan⟩ := hcan
    rw [htype] at hcan
    cases change with
    | type newType =>
      simp only [Bool.and_eq_true, contains_iff_mem] at hcan
      exact hcan.1
    | socketPath newPath =>
      cases v with
      | net type address port h => exact absurd (of_decide_eq_true hcan) type.name_ne
      | unix path => trivial
    | address newAddress =>
      cases v with
      | net type address port h => trivial
      | unix path => exact absurd rfl (of_decide_eq_true hcan)
    | port newPort =>
      cases v with
      | net type address port h => trivial
      | unix path => exact absurd rfl (of_decide_eq_true hcan)
  · simp only [Bool.and_eq_true, contains_iff_mem] at hcan
    exact hcan.2.1

/-- A change keeps the other parts of the value, and of the connect value that follows it under nat,
exactly where `Retains` says so of each. -/
theorem changesOnly_iff (form : ProxyForm) {index : ℕ} {device : LxdProxyDevice}
    (hdevice : form.devices[index]? = some device) {connectionType : ConnectionType}
    {change : AddressChange}
    (hcan : form.canChange device connectionType change = true) :
    (∃ after, (form.onChange device index connectionType change).devices[index]? = some after ∧
        ChangesOnly device after connectionType change) ↔
      ∀ c v, Edits device connectionType change c → device.value c = some (ProxyAddress.text v) →
        Retains change v := by
  obtain ⟨after, hafter, hvalue⟩ := value_onChange form hdevice connectionType change
  have hread : ∀ c v, Edits device connectionType change c →
    device.value c = some (ProxyAddress.text v) →
      ((after.value c).map readAddress = some (change.set v.parts) ↔ Retains change v) := by
    intro c v hedits hv
    have hparts : device.parts c = split ':' v.text := by rw [LxdProxyDevice.parts, hv]; rfl
    rw [(hvalue c).1 hedits, hparts, map_some, some.injEq]
    exact rewrite_iff v (fits_of_canChange hcan hedits hv)
  constructor
  · rintro ⟨after', hafter', honly⟩ c v hedits hv
    rw [hafter, some.injEq] at hafter'
    rw [← hafter'] at honly
    exact (hread c v hedits hv).mp ((honly c v hv).1 hedits)
  · intro hkeeps
    refine ⟨after, hafter, fun c v hv => ⟨fun hedits => ?_, (hvalue c).2⟩⟩
    exact (hread c v hedits hv).mpr (hkeeps c v hedits hv)

def webDevice : LxdProxyDevice := ⟨some "true", some "tcp:127.0.0.1:8080", some "tcp:10.0.0.5:80"⟩

theorem changesOnly_iff_web : ∃ after,
    ((ProxyForm.mk true none [webDevice]).onChange webDevice 0 .listen (.type "udp")).devices[0]? =
      some after ∧
      ChangesOnly webDevice after .listen (.type "udp") := by
  refine (changesOnly_iff (ProxyForm.mk true none [webDevice]) rfl (by decide)).mpr ?_
  intro c v _ hv
  have hread : ':' ∉ (readAddress v.text).address.toList ∧ (readAddress v.text).type ≠ "unix" := by
    cases c with
    | listen => rw [← some.inj hv]; decide
    | connect => rw [← some.inj hv]; decide
  rw [readAddress_text] at hread
  cases v with
  | net type address port h => exact ⟨by decide, hread.1⟩
  | unix path => exact absurd rfl hread.2

/-- A new port for an IPv6 address. -/
theorem port_change_loses_address : ¬ ∃ after,
    ((ProxyForm.mk true none [⟨none, some "tcp:[::1]:80", none⟩]).onChange ⟨none,
      some "tcp:[::1]:80", none⟩ 0 .listen (.port "8080")).devices[0]? = some after ∧
      ChangesOnly ⟨none, some "tcp:[::1]:80", none⟩ after .listen (.port "8080") := by
  rintro ⟨after, hafter, honly⟩
  have hlisten : after.listen = some "tcp:[:8080" := by
    rw [← some.inj hafter]
    decide
  have hread := (honly .listen (.net .tcp "[::1]" "80" (by decide)) (by decide)).1 (.inl rfl)
  rw [show after.value .listen = after.listen from rfl, hlisten] at hread
  exact absurd hread (by decide)

end IncusCloud.Forms
