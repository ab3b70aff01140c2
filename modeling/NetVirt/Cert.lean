/-!
# Node names

`node_info_t` and the functions of cert.c that fill it from a common name or a URI of a
certificate. Texts are C strings without their terminator. Each function reads at fixed
offsets of the text; where that is past its terminator nothing is said of the result.
-/

namespace NetVirt.Cert

/-- A C string read from a buffer: the bytes before the terminator. -/
def cstring (bytes : List UInt8) : List UInt8 := bytes.takeWhile (· ≠ 0)

/-- The bytes of a text of ASCII characters. -/
def ascii (text : List Char) : List UInt8 := text.map fun c => UInt8.ofNat c.toNat

/-- `node_info_t` -/
structure NodeInfo where
  type : List UInt8
  uuid : List UInt8
  networkUuid : List UInt8
  networkId : List UInt8
  v : Nat
deriving DecidableEq

/-- The fields of a peer certificate that are read: the URI of its alternative name and its
common name, as they are encoded. -/
structure X509 where
  altname : Option (List UInt8)
  commonName : Option (List UInt8)
deriving DecidableEq

/-- `cert_cname`: at most 63 bytes of the common name. -/
def certCname (cert : X509) : Option (List UInt8) :=
  cert.commonName.map fun name => cstring (name.take 63)

/-- `cert_altname_uri` -/
def certAltnameUri (cert : X509) : Option (List UInt8) := cert.altname.map cstring

/-- `altname2node_info`. A text shorter than 37 bytes is read past its end. -/
def altname2nodeInfo (altn : List UInt8) : Option NodeInfo :=
  if altn.length < 37 then none
  else some { type := ascii ['n', 'v', 'a'], uuid := altn.take 36,
              networkUuid := (altn.drop 37).take 36, networkId := [], v := 2 }

/-- `cn2node_info`. The result is NULL for a name of no known format; a version 1 name
shorter than 41 bytes is read past its end. -/
def cn2nodeInfo (cn : List UInt8) : Option (Option NodeInfo) :=
  if cn.take 4 = ascii ['n', 'v', 'a', '-'] ∨ cn.take 4 = ascii ['d', 'n', 'c', '-'] then
    if cn.length < 41 then none
    else some (some { type := cn.take 3, uuid := (cn.drop 4).take 36, networkUuid := [],
                      networkId := (cn.drop 41).take 5, v := 1 })
  else if cn.take 5 = ascii ['n', 'v', 'a', '2', '-'] then
    some (some { type := cn.take 3, uuid := [], networkUuid := (cn.drop 5).take 36,
                 networkId := [], v := 2 })
  else some none

/-- The node that on_secure takes from a certificate: the one its URI names, or else the one
its common name does. Without either there is none; a common name of no known format
gives a NULL pointer, which on_secure then reads. -/
def certNodeInfo (cert : X509) : Option (Option NodeInfo) :=
  match certAltnameUri cert with
  | some altname => (altname2nodeInfo altname).map some
  | none =>
    match certCname cert with
    | none => some none
    | some cn => (cn2nodeInfo cn).join.map some

end NetVirt.Cert
