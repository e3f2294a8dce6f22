import Bacteria.Net.RoundTrip
import Bacteria.Net.SplitCopy
import Bacteria.Net.UnpackFits
import Bacteria.Net.PackFits
import Bacteria.Net.PackTraversal
import Bacteria.Net.PackCapacity
import Bacteria.Net.Join
import Bacteria.Net.JoinBinding
import Bacteria.Net.FreeSplitted
import Bacteria.Serv.Registry
import Bacteria.Serv.ActivePeer
import Bacteria.Client.PeerInfo
import Bacteria.Serv.Handlers
import Bacteria.Serv.Thread
import Bacteria.Serv.ToldPeer
import Bacteria.Serv.Survival
import Bacteria.Serv.UdpBuffers
import Bacteria.Serv.PassThrough
import Bacteria.Serv.ReceiveSites
import Bacteria.Serv.Epoll
import Bacteria.Serv.Stranded
import Bacteria.EncDec.Baes
import Bacteria.EncDec.KeyLoop
import Bacteria.EncDec.AesFits
import Bacteria.EncDec.Forgery
import Bacteria.EncDec.Sign
import Bacteria.EncDec.SignFits
import Bacteria.EncDec.SyncClass
import Bacteria.EncDec.RandBytes
import Bacteria.EncDec.SharedKey
import Bacteria.EncDec.Base64
import Bacteria.EncDec.Hashes
import Bacteria.EncDec.HexStrict
import Bacteria.EncDec.PemCut
import Bacteria.Coins.Clear
import Bacteria.Coins.Lookup
import Bacteria.Coins.SecondFile
import Bacteria.Coins.Request
import Bacteria.Images.Colors
import Bacteria.Images.ColorNames
import Bacteria.Images.RandomPixels
import Bacteria.Coins.HttpBody
import Bacteria.Client.DelByPing
import Bacteria.Coins.LuaCopy
import Bacteria.Scripts.GetParams
import Bacteria.Scripts.Ownership
import Bacteria.Json.Accept
import Bacteria.Json.Cycles
import Bacteria.Json.Copy
import Bacteria.Json.Utf16
import Bacteria.Coins.RpcCall
import Bacteria.Client.Network
import Bacteria.Client.Round
import Bacteria.Serv.Conversation
import Bacteria.Scripts.MpzText
import Bacteria.EncDec.VerifyClass
import Bacteria.EncDec.VerifyOwners
import Bacteria.Images.RandStr
import Bacteria.Serv.Console
