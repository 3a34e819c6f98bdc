import CaptivoAccess.Lib.Base64
import CaptivoAccess.Spec.KeyWriter
import CaptivoAccess.Spec.RrwebRecord
import CaptivoAccess.Spec.Tunnel

/-! The request that carries a batch of a web recording to the connector
(`writeRecChunk`, `tunnel/recframe.go`). It is JSON with the bytes in Base64, and goes in
one frame of the tunnel. -/

namespace Captivo.Rrweb

open Lib.Utf8 Captivo.Tunnel Captivo.Keys

/-- `json.Marshal` of the request. -/
def recWriteRequest (dep : Deployment) (batch : Batch) : Bytes :=
  ascii "\x7b\"kind\":\"recwrite\",\"tenantId\":" ++ marshalString dep.tenantID ++
    ascii ",\"recordingKey\":" ++ marshalString batch.recordingKey ++ ascii ",\"seq\":" ++ decimal batch.seq ++
    ascii ",\"format\":\"rrweb\",\"protocol\":\"\",\"data\":\"" ++ Lib.Base64.encode (batch.events ++ [10]) ++ ascii "\"\x7d"

def fits (dep : Deployment) (batch : Batch) : Bool := (writeFrame (recWriteRequest dep batch)).isSome

/-- A post to a connector that is online: it gets the requests that go out. -/
def Online (dep : Deployment) (p : Post) (batch : Batch) : Prop := p.reaches = fits dep batch

end Captivo.Rrweb
