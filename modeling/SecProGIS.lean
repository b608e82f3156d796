import SecProGIS.Base64
import SecProGIS.BatchKeys
import SecProGIS.CbcBuffer
import SecProGIS.ClientCalls
import SecProGIS.ColumnClicks
import SecProGIS.Completion
import SecProGIS.Deadline
import SecProGIS.EcbBuffer
import SecProGIS.EcbPieces
import SecProGIS.EncryptAgree
import SecProGIS.Faults
import SecProGIS.FileSize
import SecProGIS.GeneratedKey
import SecProGIS.HexCodec
import SecProGIS.InitInstance
import SecProGIS.KeyOwner
import SecProGIS.KeyRoundTrip
import SecProGIS.LinkDataBase
import SecProGIS.LoginOrder
import SecProGIS.OutputPaths
import SecProGIS.PathArrays
import SecProGIS.Program
import SecProGIS.RecordList
import SecProGIS.RowConstruct
import SecProGIS.SharedServer
import SecProGIS.Sm3Hmac
import SecProGIS.Sm3Process
import SecProGIS.Sm4Standard
import SecProGIS.SqlWire
import SecProGIS.StatementFit
import SecProGIS.StoreRace
import SecProGIS.StoredKey
import SecProGIS.TableHeap
import SecProGIS.Times
import SecProGIS.WordHeap
