import TsDrp.Rendezvous.Record

/-!
# The address policy

Whether an address may be dialled is decided by `AddressPolicy.evaluate`.  It takes the
address apart, classifies the scope of its host, asks the name service where the host is a
name, and looks at the transports.  The host is the first component that names one.  An
address by way of a relay has a second host behind the first, which is never looked at.
-/

namespace TsDrp.Rendezvous

inductive AddressFamily where
  | ipv4
  | ipv6
  | dns
  | unknown
deriving DecidableEq

inductive AddressScope where
  | isPublic
  | isPrivate
  | loopback
  | linkLocal
  | multicast
  | reserved
  | unresolved
  | unknown
deriving DecidableEq

def AddressScope.text : AddressScope → String
  | isPublic => "public"
  | isPrivate => "private"
  | loopback => "loopback"
  | linkLocal => "link-local"
  | multicast => "multicast"
  | reserved => "reserved"
  | unresolved => "unresolved"
  | unknown => "unknown"

inductive AddressTransport where
  | ws
  | wss
  | webtransport
  | webrtcDirect
  | relay
  | tcp
  | quicV1
  | unknown
deriving DecidableEq

inductive ResolverFamily where
  | ipv4
  | ipv6
deriving DecidableEq

abbrev Resolver := String → Option ResolverFamily → Except String (List String)

inductive PolicyTarget where
  | browser
  | node
deriving DecidableEq

structure AddressPolicyOptions where
  allowInsecureWebSocket : Option Bool
  allowLoopback : Option Bool
  allowPrivate : Option Bool
  target : PolicyTarget

/-- The decision with the classification that it rests on. -/
structure PolicyDecision extends AddressDecision where
  family : AddressFamily
  resolvedScopes : List AddressScope
  scope : AddressScope
  transports : List AddressTransport

abbrev Component := String × Option String

section Scopes

def octet (text : List Char) : Option ℕ :=
  match (JsNumber.ofText (.ofList text)).toSafeInteger with
  | some part => if part < 0 ∨ 255 < part then none else some part.toNat
  | none => none

def classifyIpv4 (value : String) : AddressScope :=
  match (value.toList.splitOn '.').mapM octet with
  | some [first, second, third, _] =>
    if first = 127 then .loopback
    else if first = 169 ∧ second = 254 then .linkLocal
    else if first = 10 ∨ (first = 172 ∧ 16 ≤ second ∧ second ≤ 31) ∨
        (first = 192 ∧ second = 168) then .isPrivate
    else if 224 ≤ first ∧ first ≤ 239 then .multicast
    else if first = 0 ∨ 240 ≤ first ∨ (first = 100 ∧ 64 ≤ second ∧ second ≤ 127) ∨
        (first = 192 ∧ second = 0 ∧ third = 0) ∨ (first = 192 ∧ second = 0 ∧ third = 2) ∨
        (first = 192 ∧ second = 88 ∧ third = 99) ∨
        (first = 198 ∧ (second = 18 ∨ second = 19)) ∨
        (first = 198 ∧ second = 51 ∧ third = 100) ∨
        (first = 203 ∧ second = 0 ∧ third = 113) then .reserved
    else .isPublic
  | _ => .unknown

/-- `text.split("::")` -/
def splitDoubleColon : List Char → List (List Char)
  | ':' :: ':' :: rest => [] :: splitDoubleColon rest
  | char :: rest =>
    match splitDoubleColon rest with
    | part :: parts => (char :: part) :: parts
    | [] => [[char]]
  | [] => [[]]

def isHexDigit (char : Char) : Bool := char.isDigit || ('a' ≤ char && char ≤ 'f')

def hexDigit (char : Char) : ℕ := if char.isDigit then char.toNat - 48 else char.toNat - 87

/-- `Number.parseInt(token, 16)` for a text of hexadecimal digits. -/
def parseHex (token : List Char) : ℕ := token.foldl (fun value char => value * 16 + hexDigit char) 0

/-- The loop over the tokens; four octets stand only at the end. -/
def parseIpv6Tokens : List (List Char) → Option (List ℕ)
  | [] => some []
  | token :: rest =>
    if token.contains '.' then
      match rest, (token.splitOn '.').mapM octet with
      | [], some [first, second, third, fourth] =>
        some [(first <<< 8) ||| second, (third <<< 8) ||| fourth]
      | _, _ => none
    else if token.all isHexDigit ∧ 1 ≤ token.length ∧ token.length ≤ 4 then
      (parseIpv6Tokens rest).map (parseHex token :: ·)
    else none

def parseIpv6Side (value : List Char) : Option (List ℕ) :=
  if value = [] then some [] else parseIpv6Tokens (value.splitOn ':')

def expandIpv6 (value : String) : Option (List ℕ) :=
  let normalized := value.toList.map Char.toLower
  if normalized = [] ∨
      ¬normalized.all (fun char => isHexDigit char || char = ':' || char = '.') then none
  else
    match splitDoubleColon normalized with
    | [whole] => do
        let left ← parseIpv6Side whole
        if left.length = 8 then some left else none
    | [leftText, rightText] => do
        let left ← parseIpv6Side leftText
        let right ← parseIpv6Side rightText
        if 8 ≤ left.length + right.length then none
        else some (left ++ List.replicate (8 - left.length - right.length) 0 ++ right)
    | _ => none

def ipv4FromHextets (high low : ℕ) : String :=
  toString (high >>> 8) ++ "." ++ toString (high &&& 0xff) ++ "." ++ toString (low >>> 8) ++ "." ++
    toString (low &&& 0xff)

/-- The address of the older family that an address of the newer one contains. -/
def embeddedIpv4 (parts : List ℕ) : Option String :=
  match parts with
  | [part0, part1, part2, part3, part4, part5, part6, part7] =>
    if part0 = 0 ∧ part1 = 0 ∧ part2 = 0 ∧ part3 = 0 ∧ part4 = 0 ∧ part5 = 0 then
      some (ipv4FromHextets part6 part7)
    else if part0 = 0 ∧ part1 = 0 ∧ part2 = 0 ∧ part3 = 0 ∧ part4 = 0xffff ∧ part5 = 0 then
      some (ipv4FromHextets part6 part7)
    else if part0 = 0 ∧ part1 = 0 ∧ part2 = 0 ∧ part3 = 0 ∧ part4 = 0 ∧ part5 = 0xffff then
      some (ipv4FromHextets part6 part7)
    else if part0 = 0x2002 then some (ipv4FromHextets part1 part2)
    else if part0 = 0x0064 ∧ part1 = 0xff9b ∧ part2 = 0 ∧ part3 = 0 ∧ part4 = 0 ∧ part5 = 0 then
      some (ipv4FromHextets part6 part7)
    else none
  | _ => none

def isReservedIpv6 (parts : List ℕ) : Bool :=
  match parts with
  | part0 :: part1 :: part2 :: part3 :: _ =>
    (part0 = 0x0064 && part1 = 0xff9b && part2 = 0x0001) ||
    (part0 = 0x0100 && part1 = 0 && part2 = 0 && part3 = 0) ||
    (part0 = 0x2001 && part1 ≤ 0x01ff) || (part0 = 0x2001 && part1 = 0x0db8) ||
    (part0 = 0x3fff && (part1 &&& 0xf000) = 0)
  | _ => false

def classifyIpv6 (value : String) : AddressScope :=
  match expandIpv6 value with
  | none => .unknown
  | some parts =>
    let first := parts.headD 0
    if parts.all (· = 0) then .reserved
    else if (parts.take 7).all (· = 0) ∧ parts.getLast? = some 1 then .loopback
    else if first &&& 0xfe00 = 0xfc00 then .isPrivate
    else if first &&& 0xffc0 = 0xfe80 then .linkLocal
    else if first &&& 0xffc0 = 0xfec0 then .reserved
    else if first &&& 0xff00 = 0xff00 then .multicast
    else
      let isDeprecatedIpv4Compatible := (parts.take 6).all (· = 0)
      let isIpv4Translated := (parts.take 4).all (· = 0) ∧ parts.getD 4 0 = 0xffff ∧
        parts.getD 5 0 = 0
      let remaining : AddressScope := if isReservedIpv6 parts then .reserved else .isPublic
      match embeddedIpv4 parts with
      | some embedded =>
        let embeddedScope := classifyIpv4 embedded
        if embeddedScope ≠ .isPublic then embeddedScope
        else if isDeprecatedIpv4Compatible ∨ isIpv4Translated then .reserved
        else remaining
      | none => remaining

def classifyScope (family : AddressFamily) (value : Option String) : AddressScope :=
  match value with
  | none => if family = .dns then .unresolved else .unknown
  | some value =>
    match family with
    | .ipv4 => classifyIpv4 value
    | .ipv6 => classifyIpv6 value
    | .dns => .unresolved
    | .unknown => .unknown

def classifyIpAddressScope (value : String) : AddressScope :=
  classifyScope (if value.toList.contains ':' then .ipv6 else .ipv4) (some value)

end Scopes

section Policy

def classifyFamily (protocolName : Option String) : AddressFamily :=
  if protocolName = some "ip4" then .ipv4
  else if protocolName = some "ip6" then .ipv6
  else if protocolName = some "dns" ∨ protocolName = some "dns4" ∨ protocolName = some "dns6" ∨
      protocolName = some "dnsaddr" then .dns
  else .unknown

def resolverFamily (protocolName : String) : Option ResolverFamily :=
  if protocolName = "dns4" then some .ipv4
  else if protocolName = "dns6" then some .ipv6
  else none

def classifyTransports (names : List String) : List AddressTransport :=
  let relay : List AddressTransport := if names.contains "p2p-circuit" then [.relay] else []
  let webrtc : List AddressTransport :=
    if names.contains "webrtc-direct" then [.webrtcDirect] else []
  let webtransport : List AddressTransport :=
    if names.contains "webtransport" then [.webtransport] else []
  let webSocket : List AddressTransport :=
    if names.contains "wss" ∨ (names.contains "ws" ∧ names.contains "tls") then [.wss]
    else if names.contains "ws" then [.ws]
    else []
  let tcp : List AddressTransport :=
    if names.contains "tcp" ∧ webSocket = [] ∧ relay = [] then [.tcp] else []
  let quic : List AddressTransport :=
    if names.contains "quic-v1" ∧ webtransport = [] ∧ relay = [] then [.quicV1] else []
  let transports := relay ++ webrtc ++ webtransport ++ webSocket ++ tcp ++ quic
  if transports = [] then [.unknown] else transports

def isHost (component : Component) : Bool :=
  ["ip4", "ip6", "dns", "dns4", "dns6", "dnsaddr"].contains component.1

def AddressPolicyOptions.allowsScope (options : AddressPolicyOptions) (scope : AddressScope) :
    Bool :=
  scope = .isPublic || (options.allowPrivate = some true && scope = .isPrivate) ||
    (options.allowLoopback = some true && scope = .loopback)

def AddressPolicyOptions.scopeReasons (options : AddressPolicyOptions) (scope : AddressScope) :
    List String :=
  if options.allowsScope scope then [] else ["scope-" ++ scope.text]

/-- What speaks against the transports, for any host. -/
def AddressPolicyOptions.transportReasons (options : AddressPolicyOptions) (names : List String) :
    List String :=
  let transports := classifyTransports names
  (if transports.contains .unknown ∨ transports = [] then ["unsupported-transport"] else []) ++
  (if names.contains "ws" ∧ ¬names.contains "tls" ∧ ¬names.contains "wss" ∧
      options.allowInsecureWebSocket ≠ some true then ["insecure-websocket"] else []) ++
  (if options.target = .browser ∧ (transports.contains .tcp ∨ transports.contains .quicV1) then
      ["node-only-transport"] else []) ++
  (if options.target = .node ∧ transports.contains .webrtcDirect then
      ["browser-oriented-transport"] else [])

def familyMismatch : Option ResolverFamily → String → Bool
  | some .ipv4, address => address.toList.contains ':'
  | some .ipv6, address => !address.toList.contains ':'
  | none, _ => false

structure HostScope where
  scope : AddressScope
  resolvedScopes : List AddressScope
  reasons : List String

variable (resolver : Resolver)

def judgeResolved (scope : AddressScope) (requestedFamily : Option ResolverFamily)
    (resolved : List String) : HostScope :=
  let resolvedScopes := resolved.map classifyIpAddressScope
  if resolved = [] then ⟨scope, resolvedScopes, ["dns-empty"]⟩
  else if resolved.any (familyMismatch requestedFamily) then
    ⟨scope, resolvedScopes, ["dns-family-mismatch"]⟩
  else if resolvedScopes.any (· ≠ .isPublic) then
    ⟨scope, resolvedScopes, ["dns-rebinding-risk"]⟩
  else ⟨.isPublic, resolvedScopes, []⟩

def resolveHost (host : Option Component) : Except String HostScope :=
  match host with
  | none => .ok ⟨classifyScope .unknown none, [], []⟩
  | some (name, value) =>
    let family := classifyFamily (some name)
    let scope := classifyScope family value
    if family ≠ .dns then .ok ⟨scope, [], []⟩
    else
      match value with
      | none => .ok ⟨scope, [], ["missing-dns-name"]⟩
      | some hostname => do
          let resolved ← resolver hostname (resolverFamily name)
          return judgeResolved scope (resolverFamily name) resolved

/-- `AddressPolicy.evaluate`; an exception of the parser or of the resolver is passed on. -/
def AddressPolicyOptions.evaluate (options : AddressPolicyOptions)
    (multiaddr : String → Except String Multiaddr) (input : String) :
    Except String PolicyDecision := do
  let address ← multiaddr input
  let names := address.components.map (·.1)
  let host := address.components.find? isHost
  let found ← resolveHost resolver host
  let reasons := found.reasons ++ options.scopeReasons found.scope ++ options.transportReasons names
  return {
    dialable := reasons = []
    family := classifyFamily (host.map (·.1))
    reasons := reasons.eraseDups
    resolvedScopes := found.resolvedScopes
    scope := found.scope
    transports := classifyTransports names }

end Policy

section Hosts

variable (options : AddressPolicyOptions)

/--
A host that may be dialled: a literal address has a scope that the options allow, and a name
resolves only to public addresses of the family that it asks for.
-/
def AllowedHost (resolver : Resolver) (host : Component) : Prop :=
  if classifyFamily (some host.1) = .dns then
    ∃ hostname, host.2 = some hostname ∧
      ∀ addresses, resolver hostname (resolverFamily host.1) = .ok addresses →
        ∀ address ∈ addresses, familyMismatch (resolverFamily host.1) address = false ∧
          classifyIpAddressScope address = .isPublic
  else options.allowsScope (classifyScope (classifyFamily (some host.1)) host.2) = true

def HostsAllowed (resolver : Resolver)
    (components : List Component) : Prop :=
  ∀ component ∈ components, isHost component = true →
    AllowedHost options resolver component

def KnownFrom (first host : Component) : Prop :=
  if classifyFamily (some host.1) = .dns then
    classifyFamily (some first.1) = .dns ∧ host.2 = first.2 ∧
      resolverFamily host.1 = resolverFamily first.1
  else options.allowsScope (classifyScope (classifyFamily (some host.1)) host.2) = true

def RejectedUnresolved (first : Component) : Prop :=
  if classifyFamily (some first.1) = .dns then first.2 = none
  else options.allowsScope (classifyScope (classifyFamily (some first.1)) first.2) = false

/--
The addresses for which a look at the first host is enough: those that are rejected without
asking the resolver, and those whose other hosts are known from the first.
-/
def FirstHostDecides (components : List Component) : Prop :=
  options.transportReasons (components.map (·.1)) ≠ [] ∨
    ∀ first ∈ components.find? isHost, RejectedUnresolved options first ∨
      ∀ component ∈ components, isHost component = true → KnownFrom options first component

instance (first host : Component) :
    Decidable (KnownFrom options first host) := by
  unfold KnownFrom
  infer_instance

instance (first : Component) :
    Decidable (RejectedUnresolved options first) := by
  unfold RejectedUnresolved
  infer_instance

instance (components : List Component) : Decidable (FirstHostDecides options components) :=
  inferInstanceAs (Decidable (_ ∨ ∀ first ∈ components.find? isHost, _ ∨ ∀ component ∈ components,
    isHost component = true → KnownFrom options first component))

variable {options} {resolver : Resolver} {host : Component}

/-- The host is found, and neither it nor its scope is objected to. -/
def Passes (options : AddressPolicyOptions) (resolver : Resolver)
    (host : Option Component) : Prop :=
  ∃ found, resolveHost resolver host = .ok found ∧ found.reasons = [] ∧
    options.allowsScope found.scope = true

theorem scopeReasons_eq_nil {scope : AddressScope} :
    options.scopeReasons scope = [] ↔ options.allowsScope scope = true := by
  simp [AddressPolicyOptions.scopeReasons]

theorem dialable_iff {multiaddr : String → Except String Multiaddr} {input : String}
    {address : Multiaddr} (parsed : multiaddr input = .ok address) :
    (∃ decision, options.evaluate resolver multiaddr input = .ok decision ∧
        decision.dialable = true) ↔
      Passes options resolver (address.components.find? isHost) ∧
        options.transportReasons (address.components.map (·.1)) = [] := by
  unfold AddressPolicyOptions.evaluate Passes
  rw [parsed]
  constructor
  · rintro ⟨decision, evaluated, dialable⟩
    rcases Outcome.bind_eq_ok.mp evaluated with ⟨_, isAddress, evaluated⟩
    cases isAddress
    rcases Outcome.bind_eq_ok.mp evaluated with ⟨found, resolved, returned⟩
    cases returned
    simp only [List.append_eq_nil_iff, scopeReasons_eq_nil, decide_eq_true_eq] at dialable
    exact ⟨⟨found, resolved, dialable.1⟩, dialable.2⟩
  · rintro ⟨⟨found, resolved, noReasons, allowed⟩, transports⟩
    refine ⟨_, Outcome.bind_eq_ok.mpr ⟨address, rfl, Outcome.bind_eq_ok.mpr
      ⟨found, resolved, rfl⟩⟩, ?_⟩
    simp only [List.append_eq_nil_iff, scopeReasons_eq_nil, decide_eq_true_eq]
    exact ⟨⟨noReasons, allowed⟩, transports⟩

theorem not_passes_none : ¬ Passes options resolver none := by
  rintro ⟨found, resolved, _, allowed⟩
  cases resolved
  simp [classifyScope, AddressPolicyOptions.allowsScope] at allowed

theorem passes_literal (literal : classifyFamily (some host.1) ≠ .dns) :
    Passes options resolver (some host) ↔
      options.allowsScope (classifyScope (classifyFamily (some host.1)) host.2) = true := by
  have resolved : resolveHost resolver (some host) =
      .ok ⟨classifyScope (classifyFamily (some host.1)) host.2, [], []⟩ := by
    rcases host with ⟨name, value⟩
    exact if_pos literal
  constructor
  · rintro ⟨found, isFound, _, allowed⟩
    cases resolved.symm.trans isFound
    exact allowed
  · intro allowed
    exact ⟨_, resolved, rfl, allowed⟩

theorem judgeResolved_passes (scope : AddressScope) {requestedFamily : Option ResolverFamily}
    {addresses : List String} :
    (judgeResolved scope requestedFamily addresses).reasons = [] ↔
      addresses ≠ [] ∧ ∀ address ∈ addresses, familyMismatch requestedFamily address = false ∧
        classifyIpAddressScope address = .isPublic := by
  unfold judgeResolved
  dsimp only
  split
  case isTrue empty => simp [empty]
  case isFalse nonempty =>
    split
    case isTrue mismatch =>
      rcases List.any_eq_true.mp mismatch with ⟨address, mem, other⟩
      refine iff_of_false (List.cons_ne_nil _ _) fun all => ?_
      rw [(all.2 address mem).1] at other
      cases other
    case isFalse noMismatch =>
      rw [Bool.not_eq_true, List.any_eq_false] at noMismatch
      split
      case isTrue notPublic =>
        rcases List.any_eq_true.mp notPublic with ⟨scope, isScope, other⟩
        rcases List.mem_map.mp isScope with ⟨address, mem, rfl⟩
        refine iff_of_false (List.cons_ne_nil _ _) fun all => ?_
        rw [(all.2 address mem).2] at other
        cases other
      case isFalse allPublic =>
        refine iff_of_true rfl ⟨nonempty, fun address mem => ⟨?_, ?_⟩⟩
        · exact Bool.not_eq_true _ ▸ noMismatch address mem
        · rw [Bool.not_eq_true, List.any_eq_false] at allPublic
          have known := allPublic _ (List.mem_map_of_mem mem)
          simpa using known

theorem scope_judgeResolved {scope : AddressScope} {requestedFamily : Option ResolverFamily}
    {addresses : List String}
    (passes : (judgeResolved scope requestedFamily addresses).reasons = []) :
    (judgeResolved scope requestedFamily addresses).scope = .isPublic := by
  revert passes
  unfold judgeResolved
  dsimp only
  split_ifs <;> simp

theorem passes_name (isName : classifyFamily (some host.1) = .dns) :
    Passes options resolver (some host) ↔
      ∃ hostname addresses, host.2 = some hostname ∧
        resolver hostname (resolverFamily host.1) = .ok addresses ∧ addresses ≠ [] ∧
        ∀ address ∈ addresses, familyMismatch (resolverFamily host.1) address = false ∧
          classifyIpAddressScope address = .isPublic := by
  rcases host with ⟨name, value⟩
  have asked : resolveHost resolver (some (name, value)) = _ := if_neg (not_not.mpr isName)
  unfold Passes
  rw [asked]
  cases value with
  | none => simp
  | some hostname =>
    constructor
    · rintro ⟨found, resolved, noReasons, _⟩
      rcases Outcome.bind_eq_ok.mp resolved with ⟨addresses, answered, judged⟩
      cases judged
      rcases (judgeResolved_passes _).mp noReasons with ⟨nonempty, all⟩
      exact ⟨hostname, addresses, rfl, answered, nonempty, all⟩
    · rintro ⟨_, addresses, same, answered, nonempty, all⟩
      cases same
      have noReasons := (judgeResolved_passes .unresolved).mpr ⟨nonempty, all⟩
      have unresolved : classifyScope (classifyFamily (some name)) (some hostname) =
          .unresolved := congrArg (classifyScope · (some hostname)) isName
      rw [unresolved]
      refine ⟨_, Outcome.bind_eq_ok.mpr ⟨addresses, answered, rfl⟩, noReasons, ?_⟩
      rw [scope_judgeResolved noReasons]
      rfl

theorem Passes.allowed (passes : Passes options resolver (some host)) :
    AllowedHost options resolver host := by
  unfold AllowedHost
  split
  case isTrue isName =>
    rcases (passes_name isName).mp passes with ⟨hostname, addresses, isHostname, answered, _, all⟩
    refine ⟨hostname, isHostname, fun others answered' => ?_⟩
    cases answered.symm.trans answered'
    exact all
  case isFalse literal => exact (passes_literal literal).mp passes

theorem KnownFrom.allowed {first : Component} (known : KnownFrom options first host)
    (passes : Passes options resolver (some first)) :
    AllowedHost options resolver host := by
  unfold KnownFrom at known
  unfold AllowedHost
  split
  case isTrue isName =>
    rw [if_pos isName] at known
    rcases known with ⟨firstIsName, sameName, sameFamily⟩
    have allowed := passes.allowed
    rw [AllowedHost, if_pos firstIsName] at allowed
    rw [sameName, sameFamily]
    exact allowed
  case isFalse literal =>
    rwa [if_neg literal] at known

theorem RejectedUnresolved.not_passes (rejected : RejectedUnresolved options host) :
    ¬ Passes options resolver (some host) := by
  unfold RejectedUnresolved at rejected
  intro passes
  split at rejected
  case isTrue isName =>
    rcases (passes_name isName).mp passes with ⟨hostname, _, isHostname, _⟩
    cases rejected.symm.trans isHostname
  case isFalse literal =>
    cases rejected.symm.trans ((passes_literal literal).mp passes)

end Hosts

section Exposing

def publicAddress : Option ResolverFamily → String
  | some .ipv6 => "2606:4700::1111"
  | _ => "8.8.8.8"

def exposing (first : Component) : Resolver :=
  fun hostname family =>
    if classifyFamily (some first.1) = .dns ∧ some hostname = first.2 ∧
        family = resolverFamily first.1 then
      .ok [publicAddress family]
    else .ok ["224.0.0.1"]

variable {options : AddressPolicyOptions}

theorem classify_publicAddress (family : Option ResolverFamily) :
    familyMismatch family (publicAddress family) = false ∧
      classifyIpAddressScope (publicAddress family) = .isPublic := by
  rcases family with _ | _ | _ <;> decide +kernel

theorem classify_multicast : classifyIpAddressScope "224.0.0.1" = .multicast := by decide +kernel

theorem passes_exposing {first : Component}
    (notRejected : ¬ RejectedUnresolved options first) :
    Passes options (exposing first) (some first) := by
  unfold RejectedUnresolved at notRejected
  split at notRejected
  case isTrue isName =>
    rcases Option.ne_none_iff_exists'.mp notRejected with ⟨hostname, isHostname⟩
    refine (passes_name isName).mpr ⟨hostname, [publicAddress (resolverFamily first.1)], isHostname,
      ?_, List.cons_ne_nil _ _, ?_⟩
    · exact if_pos ⟨isName, isHostname.symm, rfl⟩
    · intro address mem
      rw [List.mem_singleton.mp mem]
      exact classify_publicAddress _
  case isFalse literal =>
    exact (passes_literal literal).mpr (by simpa using notRejected)

theorem not_allowed_exposing {first host : Component}
    (unknown : ¬ KnownFrom options first host) :
    ¬ AllowedHost options (exposing first) host := by
  unfold KnownFrom at unknown
  unfold AllowedHost
  split
  case isTrue isName =>
    rw [if_pos isName] at unknown
    rintro ⟨hostname, isHostname, all⟩
    have other : ¬ (classifyFamily (some first.1) = .dns ∧ some hostname = first.2 ∧
        resolverFamily host.1 = resolverFamily first.1) := by
      rw [← isHostname]
      exact unknown
    have isPublic := (all ["224.0.0.1"] (if_neg other) _ (List.mem_singleton.mpr rfl)).2
    rw [classify_multicast] at isPublic
    cases isPublic
  case isFalse literal => rwa [if_neg literal] at unknown

/--
The policy lets exactly those addresses keep its promise for every host whose first host
decides: whatever the resolver answers, a dialable address contains only allowed hosts.
-/
theorem dialable_hosts_are_allowed_iff {multiaddr : String → Except String Multiaddr}
    {input : String} {address : Multiaddr} (parsed : multiaddr input = .ok address) :
    (∀ resolver decision, options.evaluate resolver multiaddr input = .ok decision →
        decision.dialable = true → HostsAllowed options resolver address.components) ↔
      FirstHostDecides options address.components := by
  constructor
  · intro promise
    by_contra undecided
    rw [FirstHostDecides, not_or, not_not] at undecided
    rcases undecided with ⟨transports, undecided⟩
    simp only [not_forall, not_or] at undecided
    rcases undecided with ⟨first, isFirst, notRejected, host, mem, isHost, unknown⟩
    have passes := passes_exposing notRejected
    rw [← Option.mem_def.mp isFirst] at passes
    rcases (dialable_iff parsed).mpr ⟨passes, transports⟩ with ⟨decision, evaluated, dialable⟩
    have allowed := promise (exposing first) decision evaluated dialable host mem isHost
    exact not_allowed_exposing unknown allowed
  · intro decides resolver decision evaluated dialable component mem isHost
    rcases (dialable_iff parsed).mp ⟨decision, evaluated, dialable⟩ with ⟨passes, transports⟩
    cases found : address.components.find? Rendezvous.isHost with
    | none =>
      rw [found] at passes
      exact absurd passes not_passes_none
    | some first =>
      rw [found] at passes
      rcases decides with rejected | decides
      · exact absurd transports rejected
      · rcases decides first found with rejected | known
        · exact absurd passes rejected.not_passes
        · exact (known component mem isHost).allowed passes

end Exposing

namespace AddressExample

def strict : AddressPolicyOptions := ⟨none, none, none, .node⟩

def unknownNames : Resolver := fun _ _ => .ok []

def direct : List Component :=
  [("ip4", some "8.8.8.8"), ("tcp", some "443"), ("wss", none), ("p2p", some "alice")]

def relayed : List Component :=
  [("ip4", some "8.8.8.8"), ("tcp", some "443"), ("wss", none), ("p2p", some "relay"),
    ("p2p-circuit", none), ("ip4", some "10.0.0.1"), ("tcp", some "80"), ("p2p", some "alice")]

def parse (components : List Component) : String → Except String Multiaddr :=
  fun input => .ok ⟨input, components⟩

def dials (components : List Component) (input : String) : Prop :=
  ∃ decision, strict.evaluate unknownNames (parse components) input = .ok decision ∧
    decision.dialable = true

end AddressExample

open AddressExample in
theorem dialable_hosts_are_allowed_direct :
    dials direct "/ip4/8.8.8.8/tcp/443/wss/p2p/alice" ∧
      HostsAllowed strict unknownNames direct := by
  have dialable : dials direct "/ip4/8.8.8.8/tcp/443/wss/p2p/alice" := ⟨_, rfl, by decide +kernel⟩
  have decides : FirstHostDecides strict direct := by decide +kernel
  refine ⟨dialable, ?_⟩
  rcases dialable with ⟨decision, evaluated, isDialable⟩
  have parsed : parse direct "/ip4/8.8.8.8/tcp/443/wss/p2p/alice" =
    .ok ⟨"/ip4/8.8.8.8/tcp/443/wss/p2p/alice", direct⟩ := rfl
  exact (dialable_hosts_are_allowed_iff parsed).mpr decides unknownNames decision evaluated isDialable

open AddressExample in
/-- The second host of a relayed address is private, and the address is dialable. -/
theorem dialable_host_is_private :
    dials relayed "/ip4/8.8.8.8/tcp/443/wss/p2p/relay/p2p-circuit/ip4/10.0.0.1/tcp/80/p2p/alice" ∧
      ¬ HostsAllowed strict unknownNames relayed := by
  refine ⟨⟨_, rfl, by decide +kernel⟩, fun allowed => ?_⟩
  have isAllowed := allowed ("ip4", some "10.0.0.1") (by decide) rfl
  rw [AllowedHost, if_neg (by decide)] at isAllowed
  revert isAllowed
  decide +kernel

end TsDrp.Rendezvous
