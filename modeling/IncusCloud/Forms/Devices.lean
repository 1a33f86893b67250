import IncusCloud.Lib.Fields
import IncusCloud.Lib.NumberFormat

/-!
# Devices in a form

`util/formDevices.tsx`, `formDeviceToPayload` of `util/instanceAndProfilePayloads.tsx`, and what
they use of `util/devices.tsx`: the devices of an instance or a profile as the form has them, and
back. A device is what Incus returns of one, keys and texts; a form device is an object whose
values may be undefined, beside its name and the device it keeps whole.
-/

namespace IncusCloud.Forms

open Lib

/-- `LxdDeviceValue`, with any keys. -/
abbrev Device := OrdMap String String

structure FormDevice where
  name : String
  item : Fields String String
  bare : Option Device

/-- `s.startsWith(p)`. -/
def startsWith (p s : String) : Bool := p.toList.isPrefixOf s.toList

def isoVolumeType : String := "iso-volume"
def isoVolumeName : String := "iso-vol"
def isoVolumeProfileName : String := "iso-prof"

def isIsoDeviceName (name : String) : Bool :=
  startsWith isoVolumeName name || startsWith isoVolumeProfileName name

def standardKeys : List String :=
  ["type", "name", "network", "security.acls", "ipv4.address", "ipv6.address",
    "security.acls.default.egress.action", "security.acls.default.ingress.action", "parent", "nictype", "hwaddr"]

def isCustomNic (device : Device) : Bool :=
  device.get "type" = some "nic" && device.any fun e => !standardKeys.contains e.1

def spreadTypes : List String :=
  ["gpu", "proxy", "infiniband", "pci", "tpm", "unix-block", "unix-char", "unix-hotplug", "usb"]

/-- `item.parent && item.parent != ""`. -/
def hasParent (parent : Option String) : Bool := parent.any (· ≠ "")

/-- What `parseDevices` makes of the device `item` under `key`. -/
def parseDevice (key : String) (item : Device) : FormDevice :=
  if isCustomNic item then ⟨key, [("type", some "custom-nic")], some item⟩
  else if isIsoDeviceName key && item.get "type" ≠ some "none" then
    ⟨key, [("type", some isoVolumeType), ("source", item.get "source"), ("pool", item.get "pool")], some item⟩
  else
    match item.get "type" with
    | some "nic" =>
      if hasParent (item.get "parent") then
        ⟨key, [("parent", item.get "parent"), ("nictype", item.get "nictype"), ("type", some "nic"),
          ("security.acls", item.get "security.acls"),
          ("security.acls.default.egress.action", item.get "security.acls.default.egress.action"),
          ("security.acls.default.ingress.action", item.get "security.acls.default.ingress.action")], none⟩
      else
        ⟨key, [("ipv4.address", item.get "ipv4.address"), ("ipv6.address", item.get "ipv6.address"),
          ("network", item.get "network"), ("type", some "nic"), ("security.acls", item.get "security.acls"),
          ("security.acls.default.egress.action", item.get "security.acls.default.egress.action"),
          ("security.acls.default.ingress.action", item.get "security.acls.default.ingress.action")], none⟩
    | some "disk" =>
      ⟨key, [("path", item.get "path"), ("pool", item.get "pool"), ("source", item.get "source"),
        ("size", item.get "size"), ("type", some "disk")], some item⟩
    | some "none" => ⟨key, [("type", some "none")], none⟩
    | type =>
      if type.any fun t => spreadTypes.contains t then ⟨key, (Fields.ofMap item).erase "name", none⟩
      else ⟨key, [("type", some "unknown")], some item⟩

def parseDevices (devices : OrdMap String Device) : List FormDevice :=
  (devices.map (·.1)).map fun key => parseDevice key ((devices.get key).getD [])

def isEmptyDevice (device : FormDevice) : Bool :=
  device.item.read "type" = some "nic" && device.name = "" && (device.item.read "network").all (· = "")

/-- `/^\d/`. -/
def startsWithDigit (s : String) : Bool := s.toList.head?.any Char.isDigit

/-- `"size" in item && !item.size?.match(/^\d/)` drops the size. -/
def dropSize (item : Fields String String) : Fields String String :=
  if item.any (·.1 = "size") && !(item.read "size").any startsWithDigit then item.erase "size" else item

/-- What `formDeviceToPayload` writes of a device. -/
def deviceToPayload (device : FormDevice) : Option (Fields String String) :=
  match device.item.read "type" with
  | some "unknown" | some "custom-nic" | some "iso-volume" => device.bare.map Fields.ofMap
  | some "nic" =>
    if hasParent (device.item.read "parent") then some (device.item.erase "network")
    else some ((device.item.erase "parent").erase "nictype")
  | some "disk" => some (dropSize (Fields.spread (Fields.ofMap (device.bare.getD [])) device.item))
  | _ => some (dropSize device.item)

def formDeviceToPayload (devices : List FormDevice) : OrdMap String (Option (Fields String String)) :=
  (devices.filter fun item => !isEmptyDevice item).foldl (fun obj item => obj.set item.name (deviceToPayload item)) []

def KeepsDevices (devices : OrdMap String Device) : Prop :=
  ∀ name, Option.Rel Fields.Same ((formDeviceToPayload (parseDevices devices)).get name).join (devices.get name)

/-!
### CPU and memory limits in a form

`util/limits.tsx`, and `cpuLimitToPayload` and `memoryLimitToPayload` of
`util/instanceAndProfilePayloads.tsx`: a limit of the config as the form has it, and back. The
texts that are edited in the form itself are not modelled: a fixed CPU limit is one with a `,` or a
`-`, as `parseCpuLimit` makes it.
-/

/-- `s.includes(ch)`. -/
def includes (ch : Char) (s : String) : Bool := s.toList.contains ch

/-- `s.trim()`. -/
def trim (s : String) : String :=
  String.ofList ((s.toList.dropWhile isSpace).reverse.dropWhile isSpace).reverse

/-- `v ? parseInt(v) : undefined`. -/
def parseNumber (v : Option String) : Option Number :=
  (v.filter (· ≠ "")).map fun s => Number.parseInt s.toList

/-- `n.toString()`. -/
def numberText (n : Number) : String := String.ofList n.text

inductive CpuLimit
  | dynamic (value : Number)
  | fixed (value : String) (h : (includes ',' value || includes '-' value) = true)
  | topology (sockets cores threads : Option String)

def readPart (parts : OrdMap String String) (segment : String) : OrdMap String String :=
  match split '=' segment with
  | rawKey :: rawValue :: _ => if rawKey = "" then parts else put parts (trim rawKey) (trim rawValue)
  | _ => parts

def parseCpuLimit (limit : Option String) : Option CpuLimit :=
  (limit.filter (· ≠ "")).map fun limit =>
    if includes '=' limit then
      let parts := (split ',' limit).foldl readPart []
      .topology (parts.get "sockets") (parts.get "cores") (parts.get "threads")
    else if h : (includes ',' limit || includes '-' limit) = true then .fixed limit h
    else .dynamic (Number.parseInt limit.toList)

/-- `if (value) parts.push(name=value)`. -/
def pushPart (name : String) (value : Option String) : List String :=
  ((value.filter (· ≠ "")).map fun v => name ++ "=" ++ v).toList

def cpuLimitToPayload : Option CpuLimit → Option String
  | none => none
  | some (.dynamic value) => some (numberText value)
  | some (.fixed value _) => some value
  | some (.topology sockets cores threads) =>
    let parts := pushPart "sockets" sockets ++ pushPart "cores" cores ++ pushPart "threads" threads
    if parts = [] then none else some (join ',' parts)

structure MemoryLimit where
  value : Number
  unit : String

def parseMemoryLimit (limit : Option String) : Option MemoryLimit :=
  (limit.filter (· ≠ "")).map fun limit =>
    if includes '%' limit then ⟨Number.parseInt limit.toList, "%"⟩
    else ⟨Number.parseInt limit.toList, String.ofList (limit.toList.filter fun ch => !ch.isDigit)⟩

def memoryLimitToPayload (memoryLimit : Option MemoryLimit) : Option String :=
  (memoryLimit.filter fun m => m.value.truthy).map fun m => numberText m.value ++ m.unit

/-!
### The addresses of a proxy device in a form

`getProxyAddress` of `util/proxyDevices.tsx`: the inputs for one address of a proxy device, and what
each writes to the form. A handler writes through the value the device had when the rows were
drawn.
-/

inductive ConnectionType
  | listen
  | connect
deriving DecidableEq

/-- What the inputs read of `LxdProxyDevice`. -/
structure LxdProxyDevice where
  nat : Option String
  listen : Option String
  connect : Option String

namespace LxdProxyDevice

/-- `device[connectionType]`. -/
def value (device : LxdProxyDevice) : ConnectionType → Option String
  | .listen => device.listen
  | .connect => device.connect

def setValue (device : LxdProxyDevice) (connectionType : ConnectionType) (s : String) : LxdProxyDevice :=
  match connectionType with
  | .listen => { device with listen := some s }
  | .connect => { device with connect := some s }

/-- `device[connectionType]?.split(":") || []`. -/
def parts (device : LxdProxyDevice) (connectionType : ConnectionType) : List String :=
  ((device.value connectionType).map (split ':')).getD []

end LxdProxyDevice

/-- `proxyAddressTypeOptions` that can be picked. -/
def proxyAddressTypeOptions : List String := ["tcp", "udp", "unix"]

inductive AddressChange
  | type (newType : String)
  | socketPath (socketPath : String)
  | address (newAddress : String)
  | port (newPort : String)

structure ProxyForm where
  readOnly : Bool
  editRestriction : Option String
  devices : List LxdProxyDevice

namespace ProxyForm

def ensureEditMode (form : ProxyForm) : ProxyForm := { form with readOnly := false }

/-- `formik.setFieldValue` of `devices.<index>.<connectionType>`. -/
def setFieldValue (form : ProxyForm) (index : ℕ) (connectionType : ConnectionType) (s : String) : ProxyForm :=
  { form with devices := form.devices.modify index fun device => device.setValue connectionType s }

/-- The inputs of an address that are drawn and not disabled, and what can be put into them. -/
def canChange (form : ProxyForm) (device : LxdProxyDevice) (connectionType : ConnectionType)
    (change : AddressChange) : Bool :=
  let deviceType := ((device.parts connectionType)[0]?).getD "tcp"
  form.editRestriction.all (· = "") &&
    match change with
    | .type newType =>
      proxyAddressTypeOptions.contains newType && !(connectionType = .connect && device.nat = some "true")
    | .socketPath _ => deviceType = "unix"
    | .address _ | .port _ => deviceType ≠ "unix"

/-- The `onChange` of the input, for the device the rows were drawn with. -/
def onChange (form : ProxyForm) (device : LxdProxyDevice) (index : ℕ)
    (connectionType : ConnectionType) (change : AddressChange) : ProxyForm :=
  let deviceParts := device.parts connectionType
  let deviceType := (deviceParts[0]?).getD "tcp"
  let deviceAddress := (deviceParts[1]?).getD ""
  let devicePort := (deviceParts[2]?).getD ""
  let form := form.ensureEditMode
  match change with
  | .type newType =>
    let form := form.setFieldValue index connectionType (newType ++ ":" ++ deviceAddress ++ ":" ++ devicePort)
    if device.nat = some "true" then
      let connectParts := device.parts .connect
      let connectAddress := (connectParts[1]?).getD ""
      let connectPort := (connectParts[2]?).getD ""
      form.setFieldValue index .connect (newType ++ ":" ++ connectAddress ++ ":" ++ connectPort)
    else form
  | .socketPath socketPath => form.setFieldValue index connectionType ("unix:" ++ socketPath)
  | .address newAddress =>
    form.setFieldValue index connectionType (deviceType ++ ":" ++ newAddress ++ ":" ++ devicePort)
  | .port newPort => form.setFieldValue index connectionType (deviceType ++ ":" ++ deviceAddress ++ ":" ++ newPort)

end ProxyForm

end IncusCloud.Forms
