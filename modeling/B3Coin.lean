import B3Coin.Bridge.Committees
import B3Coin.Bridge.FinalizedView
import B3Coin.Bridge.Preview
import B3Coin.Contracts.Relay
import B3Coin.Contracts.VaultRun
import B3Coin.Finality.TrackerRun
import B3Coin.Finality.ValidatorRun
import B3Coin.FlowMesh.Auction
import B3Coin.FlowMesh.CurveValue
import B3Coin.FlowMesh.EntryAgreement
import B3Coin.FlowMesh.InPlace
import B3Coin.FlowMesh.SeatReadiness
import B3Coin.FlowMesh.SnapshotRun
import B3Coin.FlowMesh.WithdrawalInputs
import B3Coin.Legacy.PersistentReplay
import B3Coin.Stake.Registry
import B3Coin.TransitionEnvelope
import B3Coin.Update.ManagerRun
